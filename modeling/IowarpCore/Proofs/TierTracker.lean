/-
What the tracker of block movements misses and invents.

A poll checks the blobs whose reorganizations it sees, except those checked within the
interval before, and these it forgets.  A forgotten blob comes back only while its telemetry
entry is returned again, and that is so while no later entry was seen.  A check finds the old
block by size and offset, and so it is right only if that block is on the pool where the bytes
of the new one were.  In a run in which both hold at every poll nothing is missed and nothing
is invented.

The invariant of a run is in `Inv`: the entry of a reorganization that was seen and not yet
checked is retained and is returned by the next poll.
-/
import IowarpCore.Wrapper.TierTracker
import IowarpCore.Lib.Along

namespace IowarpCore
namespace TierTracker

open Cte.Wire (CteTelemetry)
open TierMovementTracker (detectMovement detectMovements)

/-! ### Where bytes are -/

/-- The pool of the block that holds a byte. -/
def poolAt : List BlobBlockInfo → Nat → Option UInt64
  | [], _ => none
  | b :: rest, x =>
    if x < b.blockSize.toNat then some b.poolId else poolAt rest (x - b.blockSize.toNat)

/-- The first byte of a block. -/
def startOf (blocks : List BlobBlockInfo) (i : Nat) : Nat :=
  ((blocks.take i).map fun b => b.blockSize.toNat).sum

/-- All bytes of a block of the new placement were on one pool. -/
structure WasOn (old new : List BlobBlockInfo) (i : Nat) (block : BlobBlockInfo)
    (pool : UInt64) : Prop where
  at_index : new[i]? = some block
  nonempty : 0 < block.blockSize
  bytes : ∀ x < block.blockSize.toNat, poolAt old (startOf new i + x) = some pool

/-- The old block that a check finds for a new one is where the bytes of that were. -/
def Matches (old new : List BlobBlockInfo) : Prop :=
  ∀ i block pool, WasOn old new i block pool →
    ∃ oldBlock, (old.find? fun b =>
      b.blockSize = block.blockSize ∧ b.blockOffset = block.blockOffset) = some oldBlock ∧
        oldBlock.poolId = pool

variable {event : TierMovementEvent} {key : BlobKey} {new old : BlobInfo} {now i : Nat}
  {b : BlobBlockInfo}

theorem mem_detectMovements :
    event ∈ detectMovements key old new now ↔ ∃ i block, new.blocks[i]? = some block ∧
      detectMovement key old.blocks now i block = some event := by
  simp only [detectMovements, List.mem_filterMap, Prod.exists, List.mem_zipIdx_iff_getElem?]
  constructor
  · rintro ⟨block, i, hblock, hevent⟩
    exact ⟨i, block, hblock, hevent⟩
  · rintro ⟨i, block, hblock, hevent⟩
    exact ⟨block, i, hblock, hevent⟩

theorem detectMovement_key {old : List BlobBlockInfo} {block : BlobBlockInfo}
    (h : detectMovement key old now i block = some event) :
    event.blobKey = key ∧ event.blockIndex = i := by
  unfold detectMovement at h
  split at h
  · split at h
    · cases h
      exact ⟨rfl, rfl⟩
    · cases h
  · cases h
    exact ⟨rfl, rfl⟩

/-- A block that moved is reported with its old pool. -/
theorem detectMovements_complete
    {block : BlobBlockInfo} {pool : UInt64} (hmatches : Matches old.blocks new.blocks)
    (hwas : WasOn old.blocks new.blocks i block pool) (hmoved : pool ≠ block.poolId) :
    ∃ event ∈ detectMovements key old new now, event.blobKey = key ∧ event.blockIndex = i ∧
      event.fromPool = some pool ∧ event.toPool = block.poolId := by
  obtain ⟨oldBlock, hfind, hpool⟩ := hmatches i block pool hwas
  refine ⟨⟨key, i, some pool, block.poolId, block.blockSize, now, 0⟩,
    mem_detectMovements.mpr ⟨i, block, hwas.at_index, ?_⟩, rfl, rfl, rfl, rfl⟩
  rw [detectMovement, hfind]
  simp only [hpool, ne_eq, hmoved, not_false_eq_true, if_true]

/-- A block that stayed is not reported. -/
theorem detectMovements_sound (hmatches : Matches old.blocks new.blocks)
    (hevent : event ∈ detectMovements key old new now) (block : BlobBlockInfo) :
    ¬ WasOn old.blocks new.blocks event.blockIndex block block.poolId := by
  intro hwas
  obtain ⟨i, block', hblock, hdetect⟩ := mem_detectMovements.mp hevent
  rw [(detectMovement_key hdetect).2] at hwas
  obtain rfl : block' = block := Option.some.inj (hblock.symm.trans hwas.at_index)
  obtain ⟨oldBlock, hfind, hpool⟩ := hmatches i block' block'.poolId hwas
  rw [detectMovement, hfind] at hdetect
  simp [hpool] at hdetect

/-! ### Names -/

/-- The registry holds names of blobs, each under its hash. -/
def Sound (blobs : AMap (TagId × Bytes) BlobInfo) (t : TierMovementTracker) : Prop :=
  ∀ tagId hash name, t.hashRegistry.find? (tagId, hash) = some name →
    (∃ info, blobs.find? (tagId, name) = some info) ∧ computeHash tagId name = hash

/-- No two blobs of a tag have one hash. -/
def Distinct (blobs : AMap (TagId × Bytes) BlobInfo) : Prop :=
  ∀ tagId a b info info', blobs.find? (tagId, a) = some info → blobs.find? (tagId, b) = some info' →
    computeHash tagId a = computeHash tagId b → a = b

/-- The info of the blob with a key. -/
def InfoOf (blobs : AMap (TagId × Bytes) BlobInfo) (key : BlobKey) (info : BlobInfo) : Prop :=
  ∃ name, blobs.find? (key.tagId, name) = some info ∧ computeHash key.tagId name = key.blobHash

@[simp] theorem tagId_new (tagId : TagId) (hash : UInt64) : (BlobKey.new tagId hash).tagId = tagId :=
  rfl

@[simp] theorem blobHash_new (tagId : TagId) (hash : UInt64) :
    (BlobKey.new tagId hash).blobHash = hash := rfl

/-- A blob has its key's info. -/
theorem infoOf_new {blobs : AMap (TagId × Bytes) BlobInfo} {tagId : TagId} {name : Bytes}
    {info : BlobInfo} (h : blobs.find? (tagId, name) = some info) :
    InfoOf blobs (.new tagId (computeHash tagId name)) info := by
  refine ⟨name, ?_, ?_⟩
  · rwa [tagId_new]
  · rw [tagId_new, blobHash_new]

theorem InfoOf.unique {blobs : AMap (TagId × Bytes) BlobInfo}
    {info info' : BlobInfo} (hdistinct : Distinct blobs) (h : InfoOf blobs key info)
    (h' : InfoOf blobs key info') : info = info' := by
  obtain ⟨name, hfind, hhash⟩ := h
  obtain ⟨name', hfind', hhash'⟩ := h'
  rw [hdistinct _ _ _ _ _ hfind hfind' (hhash.trans hhash'.symm), hfind', Option.some.injEq]
    at hfind
  exact hfind.symm

/-- Two trackers that differ at most in the names they know. -/
structure SameBut (t t' : TierMovementTracker) : Prop where
  blobCache : t'.blobCache = t.blobCache
  dirtyHashes : t'.dirtyHashes = t.dirtyHashes
  pollInterval : t'.pollInterval = t.pollInterval
  lastTelemetryTime : t'.lastTelemetryTime = t.lastTelemetryTime

section

variable {r : Run} {t : TierMovementTracker}

variable {tagId : TagId} {info : BlobInfo} {key : BlobKey} {now : Nat}

theorem mem_contained {name : Bytes} :
    name ∈ ((r.client.getContainedBlobs tagId).getD []) ↔
      ∃ info, r.blobs.find? (tagId, name) = some info := by
  simp only [Run.client, Option.getD_some, List.mem_map, List.mem_filter, decide_eq_true_eq,
    AMap.find?_eq_some_iff]
  constructor
  · rintro ⟨⟨⟨tag, name'⟩, info⟩, ⟨hmem, rfl⟩, rfl⟩
    exact ⟨info, hmem⟩
  · rintro ⟨info, hmem⟩
    exact ⟨((tagId, name), info), ⟨hmem, rfl⟩, rfl⟩

theorem populateTag_same (client : Client) (tagId : TagId) (t : TierMovementTracker) :
    SameBut t (t.populateTag client tagId) := by
  unfold TierMovementTracker.populateTag
  split <;> exact ⟨rfl, rfl, rfl, rfl⟩

theorem populateTag_registry {name : Bytes}
    (hdistinct : Distinct r.blobs) (hblob : r.blobs.find? (tagId, name) = some info)
    (hnew : tagId ∉ t.populatedTags) :
    (t.populateTag r.client tagId).hashRegistry.find? (tagId, computeHash tagId name) =
      some name := by
  rw [TierMovementTracker.populateTag, if_neg hnew]
  refine AMap.find?_assignAll (fun a => (tagId, computeHash tagId a)) id _
    ⟨name, mem_contained.mpr ⟨info, hblob⟩, rfl⟩ (fun a ha heq => ?_) _
  obtain ⟨info', hblob'⟩ := mem_contained.mp ha
  exact hdistinct _ _ _ _ _ hblob' hblob (Prod.mk.inj heq).2

theorem populateTag_sound (hdistinct : Distinct r.blobs) (hsound : Sound r.blobs t)
    (tagId : TagId) : Sound r.blobs (t.populateTag r.client tagId) := by
  by_cases hmem : tagId ∈ t.populatedTags
  · rwa [TierMovementTracker.populateTag, if_pos hmem]
  · intro tag hash name hfind
    by_cases hassigned : ∃ a info, r.blobs.find? (tagId, a) = some info ∧
        (tagId, computeHash tagId a) = (tag, hash)
    · obtain ⟨a, info, hblob, heq⟩ := hassigned
      obtain ⟨rfl, rfl⟩ := Prod.mk.inj heq
      rw [populateTag_registry hdistinct hblob hmem, Option.some.injEq] at hfind
      subst hfind
      exact ⟨⟨info, hblob⟩, rfl⟩
    · rw [TierMovementTracker.populateTag, if_neg hmem] at hfind
      refine hsound tag hash name ?_
      rw [← hfind]
      refine (AMap.find?_assignAll_of_ne (fun a => (tagId, computeHash tagId a)) id _ _
        fun a ha heq => ?_).symm
      obtain ⟨info, hblob⟩ := mem_contained.mp ha
      exact hassigned ⟨a, info, hblob, heq⟩

/-- A blob is found under its hash, by one name. -/
theorem resolve_spec (hdistinct : Distinct r.blobs)
    (hsound : Sound r.blobs t) (hinfo : InfoOf r.blobs key info) :
    ∃ name t', t.resolve r.client key = (some name, t') ∧
      r.blobs.find? (key.tagId, name) = some info ∧ SameBut t t' ∧ Sound r.blobs t' := by
  obtain ⟨name, hblob, hhash⟩ := hinfo
  have hname : ∀ t' : TierMovementTracker, Sound r.blobs t' → ∀ name',
      t'.resolveHash key.tagId key.blobHash = some name' → name' = name := by
    intro t' hsound' name' hfind
    obtain ⟨⟨info', hblob'⟩, hhash'⟩ := hsound' _ _ _ hfind
    exact hdistinct _ _ _ _ _ hblob' hblob (hhash'.trans hhash.symm)
  unfold TierMovementTracker.resolve
  cases hfind : t.resolveHash key.tagId key.blobHash with
  | some name' =>
    obtain rfl := hname t hsound name' hfind
    exact ⟨name', t, rfl, hblob, ⟨rfl, rfl, rfl, rfl⟩, hsound⟩
  | none =>
    have hforgot : Sound r.blobs (t.forgetTag key.tagId) := hsound
    have hnew : key.tagId ∉ (t.forgetTag key.tagId).populatedTags := by
      simp [TierMovementTracker.forgetTag]
    have hthere := populateTag_registry hdistinct hblob hnew
    rw [hhash] at hthere
    have hsame := populateTag_same r.client key.tagId (t.forgetTag key.tagId)
    exact ⟨name, _, Prod.ext hthere rfl, hblob,
      ⟨hsame.blobCache, hsame.dirtyHashes, hsame.pollInterval, hsame.lastTelemetryTime⟩,
      populateTag_sound hdistinct hforgot key.tagId⟩

/-! ### Seeing telemetry -/

/-- The entry makes the blob with the key dirty. -/
def Dirties (entry : CteTelemetry) (key : BlobKey) : Prop :=
  (CteOp.ofU32 entry.op = .reorganizeBlob ∧ entry.blobHash ≠ 0) ∧
    BlobKey.new entry.tagId entry.blobHash = key

/-- What seeing some entries makes of a tracker. -/
structure Saw (r : Run) (entries : List CteTelemetry) (t t' : TierMovementTracker) : Prop where
  blobCache : t'.blobCache = t.blobCache
  pollInterval : t'.pollInterval = t.pollInterval
  latest : ∀ bound, t.lastTelemetryTime ≤ bound → (∀ e ∈ entries, e.logicalTime ≤ bound) →
    t'.lastTelemetryTime ≤ bound
  dirty : ∀ key, key ∈ t'.dirtyHashes ↔ key ∈ t.dirtyHashes ∨ ∃ e ∈ entries, Dirties e key
  nodup : t.dirtyHashes.Nodup → t'.dirtyHashes.Nodup
  sound : Sound r.blobs t → Sound r.blobs t'

theorem markDirty_saw (hdistinct : Distinct r.blobs) (t : TierMovementTracker)
    (entry : CteTelemetry) :
    Saw r [entry] t (t.markDirty r.client entry) := by
  have hsame := populateTag_same r.client entry.tagId t
  by_cases hdirty : CteOp.ofU32 entry.op = .reorganizeBlob ∧ entry.blobHash ≠ 0
  · rw [TierMovementTracker.markDirty, if_pos hdirty]
    refine ⟨hsame.blobCache, hsame.pollInterval, fun _ hlast _ => ?_, fun key => ?_,
      fun hnodup => ?_, fun hsound => populateTag_sound hdistinct hsound entry.tagId⟩
    · exact hsame.lastTelemetryTime.symm ▸ hlast
    · simp only [hsame.dirtyHashes, List.mem_insert_iff, List.mem_singleton, exists_eq_left,
        Dirties, and_iff_right hdirty]
      rw [or_comm, eq_comm]
    · simp only [hsame.dirtyHashes]
      exact hnodup.insert
  · rw [TierMovementTracker.markDirty, if_neg hdirty]
    refine ⟨rfl, rfl, fun _ h _ => h, fun key => ?_, id, id⟩
    simp only [List.mem_singleton, exists_eq_left, Dirties, hdirty, false_and, or_false]

theorem see_saw (hdistinct : Distinct r.blobs) (t : TierMovementTracker) (entry : CteTelemetry) :
    Saw r [entry] t (t.see r.client entry) := by
  have hmark := markDirty_saw hdistinct (t.advance entry) entry
  have hadvance : (t.advance entry).blobCache = t.blobCache ∧
      (t.advance entry).pollInterval = t.pollInterval ∧
      (t.advance entry).dirtyHashes = t.dirtyHashes ∧
      (t.advance entry).hashRegistry = t.hashRegistry := by
    unfold TierMovementTracker.advance
    split <;> exact ⟨rfl, rfl, rfl, rfl⟩
  have hrefresh : ∀ t' : TierMovementTracker, (t'.refreshTag entry).blobCache = t'.blobCache ∧
      (t'.refreshTag entry).pollInterval = t'.pollInterval ∧
      (t'.refreshTag entry).dirtyHashes = t'.dirtyHashes ∧
      (t'.refreshTag entry).hashRegistry = t'.hashRegistry ∧
      (t'.refreshTag entry).lastTelemetryTime = t'.lastTelemetryTime := by
    intro t'
    unfold TierMovementTracker.refreshTag
    split <;> exact ⟨rfl, rfl, rfl, rfl, rfl⟩
  obtain ⟨hcache, hinterval, hdirty, hregistry, hlast⟩ :=
    hrefresh ((t.advance entry).markDirty r.client entry)
  refine ⟨?_, ?_, fun bound hbound hentry => ?_, fun key => ?_, fun hnodup => ?_, fun hsound => ?_⟩
  · exact hcache.trans (hmark.blobCache.trans hadvance.1)
  · exact hinterval.trans (hmark.pollInterval.trans hadvance.2.1)
  · rw [TierMovementTracker.see, hlast]
    refine hmark.latest bound ?_ hentry
    unfold TierMovementTracker.advance
    split
    · exact hentry entry List.mem_cons_self
    · exact hbound
  · rw [TierMovementTracker.see, hdirty, hmark.dirty, hadvance.2.2.1]
  · rw [TierMovementTracker.see, hdirty]
    exact hmark.nodup (hadvance.2.2.1.symm ▸ hnodup)
  · have hadvanced : Sound r.blobs (t.advance entry) := by
      unfold Sound
      rw [hadvance.2.2.2]
      exact hsound
    unfold Sound
    rw [TierMovementTracker.see, hregistry]
    exact hmark.sound hadvanced

theorem seeAll_saw (hdistinct : Distinct r.blobs) (entries : List CteTelemetry)
    (t : TierMovementTracker) :
    Saw r entries t (entries.foldl (TierMovementTracker.see r.client) t) := by
  induction entries generalizing t with
  | nil =>
    exact ⟨rfl, rfl, fun _ h _ => h, fun key => by simp, id, id⟩
  | cons entry rest ih =>
    have hfirst := see_saw hdistinct t entry
    have hrest := ih (t.see r.client entry)
    rw [List.foldl_cons]
    refine ⟨hrest.blobCache.trans hfirst.blobCache, hrest.pollInterval.trans hfirst.pollInterval,
      fun bound hlast hall => ?_, fun key => ?_, fun h => hrest.nodup (hfirst.nodup h),
      fun h => hrest.sound (hfirst.sound h)⟩
    · refine hrest.latest bound (hfirst.latest bound hlast fun e he => ?_)
        fun e he => hall e (List.mem_cons_of_mem _ he)
      rw [List.mem_singleton.mp he]
      exact hall entry List.mem_cons_self
    · rw [hrest.dirty, hfirst.dirty]
      simp only [List.mem_cons, List.not_mem_nil, or_false, exists_eq_or_imp, exists_eq_left, or_assoc]

/-! ### Checking dirty blobs -/

theorem check_debounced {client : Client}
    (h : t.debounced now key = true) : t.check client now key = ([], t) := by
  rw [TierMovementTracker.check, if_pos h]

/-- A check of a blob gives the movements since the last one, and the cache then has its info. -/
theorem check_due (hdistinct : Distinct r.blobs)
    (hsound : Sound r.blobs t) (hinfo : InfoOf r.blobs key info)
    (hdue : t.debounced now key = false) :
    ∃ t', SameBut t t' ∧ Sound r.blobs t' ∧
      t.check r.client now key =
        (match t.blobCache.find? key with
          | some cached => detectMovements key cached.info info now
          | none => [],
        { t' with blobCache := t.blobCache.insertOrAssign key ⟨info, now⟩ }) := by
  obtain ⟨name, t', hresolve, hblob, hsame, hsound'⟩ := resolve_spec hdistinct hsound hinfo
  have hget : r.client.getBlobInfo key.tagId name = some info := hblob
  refine ⟨t', hsame, hsound', ?_⟩
  rw [TierMovementTracker.check, hdue]
  simp only [hresolve, hget, hsame.blobCache]
  rfl

theorem debounced_congr {t' : TierMovementTracker}
    (hcache : t'.blobCache.find? key = t.blobCache.find? key)
    (hinterval : t'.pollInterval = t.pollInterval) : t'.debounced now key = t.debounced now key := by
  rw [TierMovementTracker.debounced, TierMovementTracker.debounced, hcache, hinterval]

/-- What the check of one blob makes of a tracker. -/
structure CheckedOne (r : Run) (now : Nat) (key : BlobKey) (t : TierMovementTracker)
    (checked : List TierMovementEvent × TierMovementTracker) : Prop where
  events : ∀ event, event ∈ checked.1 ↔ t.debounced now key = false ∧ ∃ cached info,
    t.blobCache.find? key = some cached ∧ InfoOf r.blobs key info ∧
      event ∈ detectMovements key cached.info info now
  info : t.debounced now key = false → ∃ info, InfoOf r.blobs key info ∧
    checked.2.blobCache.find? key = some ⟨info, now⟩
  skipped : t.debounced now key = true → checked.2 = t
  others : ∀ key', key' ≠ key → checked.2.blobCache.find? key' = t.blobCache.find? key'
  dirtyHashes : checked.2.dirtyHashes = t.dirtyHashes
  pollInterval : checked.2.pollInterval = t.pollInterval
  latest : checked.2.lastTelemetryTime = t.lastTelemetryTime
  sound : Sound r.blobs checked.2

theorem check_spec (now : Nat) (hdistinct : Distinct r.blobs)
    (hsound : Sound r.blobs t) (hinfo : InfoOf r.blobs key info) :
    CheckedOne r now key t (t.check r.client now key) := by
  cases hdue : t.debounced now key with
  | true =>
    rw [check_debounced hdue]
    refine ⟨fun event => ?_, fun h => ?_, fun _ => rfl, fun _ _ => rfl, rfl, rfl, rfl, hsound⟩
    · simp [hdue]
    · rw [hdue] at h
      cases h
  | false =>
    obtain ⟨t', hsame, hsound', hcheck⟩ := check_due hdistinct hsound hinfo hdue
    rw [hcheck]
    refine ⟨fun event => ?_, fun _ => ⟨info, hinfo, AMap.find?_insertOrAssign_self _ _ _⟩,
      fun h => ?_, fun key' hne => AMap.find?_insertOrAssign_of_ne _ _ hne, hsame.dirtyHashes,
      hsame.pollInterval, hsame.lastTelemetryTime, hsound'⟩
    · simp only [hdue, true_and]
      cases hcached : t.blobCache.find? key with
      | none => simp
      | some cached =>
        constructor
        · intro hevent
          exact ⟨cached, info, rfl, hinfo, hevent⟩
        · rintro ⟨cached', info', hcached', hinfo', hevent⟩
          cases hcached'
          rwa [hinfo.unique hdistinct hinfo']
    · rw [hdue] at h
      cases h

/-- What the checks of some dirty blobs make of a tracker. -/
structure CheckedAll (r : Run) (now : Nat) (keys : List BlobKey) (t : TierMovementTracker)
    (checked : List TierMovementEvent × TierMovementTracker) : Prop where
  events : ∀ event, event ∈ checked.1 ↔ ∃ key ∈ keys, t.debounced now key = false ∧
    ∃ cached info, t.blobCache.find? key = some cached ∧ InfoOf r.blobs key info ∧
      event ∈ detectMovements key cached.info info now
  info : ∀ key ∈ keys, t.debounced now key = false → ∃ info, InfoOf r.blobs key info ∧
    checked.2.blobCache.find? key = some ⟨info, now⟩
  others : ∀ key, (key ∈ keys → t.debounced now key = true) →
    checked.2.blobCache.find? key = t.blobCache.find? key
  dirtyHashes : checked.2.dirtyHashes = t.dirtyHashes
  pollInterval : checked.2.pollInterval = t.pollInterval
  latest : checked.2.lastTelemetryTime = t.lastTelemetryTime
  sound : Sound r.blobs checked.2

theorem checkAll_spec (now : Nat) {keys : List BlobKey} (hdistinct : Distinct r.blobs)
    (hsound : Sound r.blobs t) (hnodup : keys.Nodup)
    (hinfo : ∀ key ∈ keys, ∃ info, InfoOf r.blobs key info) :
    CheckedAll r now keys t (t.checkAll r.client now keys) := by
  induction keys generalizing t with
  | nil =>
    exact ⟨by simp [TierMovementTracker.checkAll], by simp, fun _ _ => rfl, rfl, rfl, rfl, hsound⟩
  | cons key rest ih =>
    obtain ⟨hnot, hrestNodup⟩ := List.nodup_cons.mp hnodup
    obtain ⟨info, hkey⟩ := hinfo key List.mem_cons_self
    have hone := check_spec now hdistinct hsound hkey
    have hrest := ih hone.sound hrestNodup fun k hk => hinfo k (List.mem_cons_of_mem _ hk)
    -- The others are where they were, since no blob is in a set twice.
    have hdue : ∀ k ∈ rest, (t.check r.client now key).2.debounced now k = t.debounced now k :=
      fun k hk => debounced_congr (hone.others k fun h => hnot (h ▸ hk)) hone.pollInterval
    have hcache : ∀ k ∈ rest, (t.check r.client now key).2.blobCache.find? k =
        t.blobCache.find? k := fun k hk => hone.others k fun h => hnot (h ▸ hk)
    rw [TierMovementTracker.checkAll]
    refine ⟨fun event => ?_, fun k hk hfree => ?_, fun k hk => ?_,
      hrest.dirtyHashes.trans hone.dirtyHashes, hrest.pollInterval.trans hone.pollInterval,
      hrest.latest.trans hone.latest, hrest.sound⟩
    · rw [List.mem_append, hone.events, hrest.events]
      simp only [List.mem_cons, exists_eq_or_imp]
      refine or_congr_right (exists_congr fun k => and_congr_right fun hk => ?_)
      rw [hdue k hk, hcache k hk]
    · obtain rfl | hk := List.mem_cons.mp hk
      · obtain ⟨info', hinfo', hfind⟩ := hone.info hfree
        exact ⟨info', hinfo', (hrest.others k fun h => absurd h hnot).trans hfind⟩
      · exact hrest.info k hk ((hdue k hk).trans hfree)
    · have hfirst : (t.check r.client now key).2.blobCache.find? k = t.blobCache.find? k := by
        by_cases heq : k = key
        · subst heq
          rw [hone.skipped (hk List.mem_cons_self)]
        · exact hone.others k heq
      refine (hrest.others k fun h => ?_).trans hfirst
      exact (hdue k h).trans (hk (List.mem_cons_of_mem _ h))

/-! ### What a run has to keep to -/

/-- The next poll sees that the blob was reorganized since its last check. -/
def Run.Due (r : Run) (key : BlobKey) (l : Logged) : Prop :=
  l ∈ r.visible ∧ l.Reorganizes key ∧ r.checked key ≤ l.number

/-- Every blob that is checked is found where its bytes were. -/
def Run.Matching (r : Run) (now : Nat) : Prop :=
  ∀ key cached info, r.Checks now key → r.tracker.blobCache.find? key = some cached →
    InfoOf r.blobs key info → Matches cached.info.blocks info.blocks

/-- A blob that was checked just before is not due, or its entry is the latest that the poll
sees. -/
def Run.NothingSkipped (r : Run) (now : Nat) : Prop :=
  ∀ key l, r.tracker.debounced now key = true → r.Due key l →
    ∃ l', r.Due key l' ∧ ∀ l'' ∈ r.visible, l''.entry.logicalTime ≤ l'.entry.logicalTime

/-- The condition on a step: a new blob has a hash of its own, what a poll saw is retained until
the blob is checked, and a poll skips nothing and finds old blocks where they were. -/
def Run.Good (r : Run) : Action → Prop
  | .put tagId blobName _ _ => ∀ name info, r.blobs.find? (tagId, name) = some info →
      computeHash tagId name = computeHash tagId blobName → name = blobName
  | .reorganize _ _ _ _ => True
  | .forget keep => ∀ key l, r.tracker.blobCache.find? key ≠ none → r.Due key l → l ∈ r.seen →
      ∃ l', r.Due key l' ∧ l' ∈ r.seen ∧ keep l'.number = true
  | .poll _ now => r.Matching now ∧ r.NothingSkipped now

/-! ### The invariant of a run -/

/-- Between polls: no two blobs of a tag have one hash, the registry is sound, nothing is
dirty, and a blob that was seen to be reorganized since its last check is due. -/
structure Inv (r : Run) : Prop where
  distinct : Distinct r.blobs
  sound : Sound r.blobs r.tracker
  clean : r.tracker.dirtyHashes = []
  hashed : ∀ key, r.tracker.blobCache.find? key ≠ none → key.blobHash ≠ 0
  sources : ∀ l ∈ r.log, ∀ key, l.Reorganizes key → ∃ info, InfoOf r.blobs key info
  numbers : ∀ l, l ∈ r.log ∨ l ∈ r.seen → l.number < r.logged
  live : ∀ key, r.tracker.blobCache.find? key ≠ none → ∀ l ∈ r.seen, l.Reorganizes key →
    r.checked key ≤ l.number → ∃ l', r.Due key l' ∧ l' ∈ r.seen

theorem inv_new (pollInterval : Nat) : Inv (.new pollInterval) where
  distinct := fun _ _ _ _ _ h => by cases h
  sound := fun _ _ _ h => by cases h
  clean := rfl
  hashed := fun _ h => absurd rfl h
  sources := fun _ h => by cases h
  numbers := fun _ h => by rcases h with h | h <;> cases h
  live := fun _ h => absurd rfl h

/-! ### One poll -/

theorem mem_dirty (h : Inv r) (key : BlobKey) :
    key ∈ r.seeing.dirtyHashes ↔ ∃ l ∈ r.visible, l.Reorganizes key ∧ key.blobHash ≠ 0 := by
  have hsaw := seeAll_saw h.distinct (r.visible.map Logged.entry) r.tracker
  rw [Run.seeing, hsaw.dirty, h.clean]
  constructor
  · rintro (hmem | ⟨e, he, ⟨hop, hhash⟩, rfl⟩)
    · cases hmem
    · obtain ⟨l, hl, rfl⟩ := List.mem_map.mp he
      exact ⟨l, hl, ⟨hop, rfl⟩, hhash⟩
  · rintro ⟨l, hl, ⟨hop, rfl⟩, hhash⟩
    exact .inr ⟨l.entry, List.mem_map_of_mem hl, ⟨hop, hhash⟩, rfl⟩

/-- What a poll makes of a tracker. -/
structure Polled (r : Run) (now : Nat)
    (polled : List TierMovementEvent × TierMovementTracker) : Prop where
  events : ∀ event, event ∈ polled.1 ↔ ∃ key, r.Checks now key ∧ ∃ cached info,
    r.tracker.blobCache.find? key = some cached ∧ InfoOf r.blobs key info ∧
      event ∈ detectMovements key cached.info info now
  info : ∀ key, r.Checks now key → ∃ info, polled.2.blobCache.find? key = some ⟨info, now⟩
  others : ∀ key, ¬ r.Checks now key →
    polled.2.blobCache.find? key = r.tracker.blobCache.find? key
  clean : polled.2.dirtyHashes = []
  latest : ∀ bound, r.tracker.lastTelemetryTime ≤ bound →
    (∀ l ∈ r.visible, l.entry.logicalTime ≤ bound) → polled.2.lastTelemetryTime ≤ bound
  sound : Sound r.blobs polled.2

theorem poll_spec (h : Inv r) (drain : DrainOrder) (now : Nat) :
    Polled r now (r.tracker.pollMovements r.client drain now) := by
  have hsaw := seeAll_saw h.distinct (r.visible.map Logged.entry) r.tracker
  have htelemetry : r.client.pollTelemetry r.tracker.lastTelemetryTime =
      some (r.visible.map Logged.entry) := by
    rw [Run.visible, ← Function.comp_def (fun e : CteTelemetry =>
      decide (r.tracker.lastTelemetryTime ≤ e.logicalTime)) Logged.entry, ← List.filter_map]
    rfl
  have hperm := drain.perm r.seeing.dirtyHashes
  have hdebounced : ∀ key, { r.seeing with dirtyHashes := [] }.debounced now key =
      r.tracker.debounced now key := fun key =>
    debounced_congr (congrArg (AMap.find? · key) hsaw.blobCache) hsaw.pollInterval
  have hchecks : ∀ key, r.Checks now key ↔ key ∈ drain.order r.seeing.dirtyHashes ∧
      { r.seeing with dirtyHashes := [] }.debounced now key = false := fun key => by
    rw [hdebounced, hperm.mem_iff, Run.Checks]
  have hall := checkAll_spec (t := { r.seeing with dirtyHashes := [] }) now h.distinct
    (hsaw.sound h.sound) (hperm.nodup_iff.mpr (hsaw.nodup (by rw [h.clean]; exact List.nodup_nil)))
    fun key hkey => by
      obtain ⟨l, hl, hreorganizes, -⟩ := (mem_dirty h key).mp (hperm.mem_iff.mp hkey)
      exact h.sources l (List.mem_filter.mp hl).1 key hreorganizes
  have hpoll : r.tracker.pollMovements r.client drain now =
      { r.seeing with dirtyHashes := [] }.checkAll r.client now
        (drain.order r.seeing.dirtyHashes) := by
    rw [TierMovementTracker.pollMovements, htelemetry]
    rfl
  rw [hpoll]
  refine ⟨fun event => ?_, fun key hkey => ?_, fun key hkey => ?_, hall.dirtyHashes,
    fun bound hlast hvisible => ?_, hall.sound⟩
  · rw [hall.events]
    simp only [hchecks, hsaw.blobCache, and_assoc, Run.seeing]
  · obtain ⟨hmem, hfree⟩ := (hchecks key).mp hkey
    obtain ⟨info, -, hfind⟩ := hall.info key hmem hfree
    exact ⟨info, hfind⟩
  · refine (hall.others key fun hmem => ?_).trans (congrArg (AMap.find? · key) hsaw.blobCache)
    cases hfree : { r.seeing with dirtyHashes := [] }.debounced now key with
    | true => rfl
    | false => exact absurd ((hchecks key).mpr ⟨hmem, hfree⟩) hkey
  · rw [hall.latest]
    refine hsaw.latest bound hlast fun e he => ?_
    obtain ⟨l, hl, rfl⟩ := List.mem_map.mp he
    exact hvisible l hl

/-- A cached blob that is due is dirty once the poll has seen the telemetry. -/
theorem Run.Due.dirty {l : Logged} (hdue : r.Due key l) (h : Inv r)
    (hcached : r.tracker.blobCache.find? key ≠ none) : key ∈ r.seeing.dirtyHashes :=
  (mem_dirty h key).mpr ⟨l, hdue.1, hdue.2.1, h.hashed key hcached⟩

/-- A blob that polls have seen to be reorganized since its last check is due, whether this
poll is the first to see it or not. -/
theorem due_of_seen (h : Inv r) {l : Logged}
    (hcached : r.tracker.blobCache.find? key ≠ none) (hl : l ∈ r.seen ++ r.visible)
    (hreorganizes : l.Reorganizes key) (hchecked : r.checked key ≤ l.number) :
    ∃ l', r.Due key l' := by
  obtain hseen | hvisible := List.mem_append.mp hl
  · obtain ⟨l', hdue, -⟩ := h.live key hcached l hseen hreorganizes hchecked
    exact ⟨l', hdue⟩
  · exact ⟨l, hvisible, hreorganizes, hchecked⟩

/-! ### Steps -/

theorem inv_place (h : Inv r) {op : UInt32} {blobName : Bytes}
    {entry : CteTelemetry} (hnew : ∀ name info', r.blobs.find? (tagId, name) = some info' →
      computeHash tagId name = computeHash tagId blobName → name = blobName) :
    Inv (r.place op tagId blobName info entry) := by
  have hfind : ∀ tag name, (r.place op tagId blobName info entry).blobs.find? (tag, name) =
      if (tag, name) = (tagId, blobName) then some info else r.blobs.find? (tag, name) :=
    fun tag name => AMap.find?_insertOrAssign _ _ _ _
  have hkept : ∀ tag name info', r.blobs.find? (tag, name) = some info' →
      ∃ info'', (r.place op tagId blobName info entry).blobs.find? (tag, name) = some info'' := by
    intro tag name info' hblob
    rw [hfind]
    split
    · exact ⟨info, rfl⟩
    · exact ⟨info', hblob⟩
  -- A blob is the new one, or was there before.
  have hsplit : ∀ tag name info',
      (r.place op tagId blobName info entry).blobs.find? (tag, name) = some info' →
        tag = tagId ∧ name = blobName ∨ r.blobs.find? (tag, name) = some info' := by
    intro tag name info' hblob
    rw [hfind] at hblob
    split at hblob
    · rename_i heq
      exact .inl (Prod.mk.inj heq)
    · exact .inr hblob
  refine ⟨?_, ?_, h.clean, h.hashed, ?_, ?_, ?_⟩
  · intro tag a b info' info'' ha hb hhash
    obtain ⟨rfl, rfl⟩ | hold := hsplit _ _ _ ha
    · obtain ⟨-, rfl⟩ | hold' := hsplit _ _ _ hb
      · rfl
      · exact (hnew b info'' hold' hhash.symm).symm
    · obtain ⟨rfl, rfl⟩ | hold' := hsplit _ _ _ hb
      · exact hnew a info' hold hhash
      · exact h.distinct tag a b info' info'' hold hold' hhash
  · intro tag hash name hregistered
    obtain ⟨⟨info', hblob⟩, hhash⟩ := h.sound tag hash name hregistered
    exact ⟨hkept _ _ _ hblob, hhash⟩
  · intro l hl key hreorganizes
    obtain hold | hlast := List.mem_append.mp hl
    · obtain ⟨info', name, hblob, hhash⟩ := h.sources l hold key hreorganizes
      obtain ⟨info'', hblob'⟩ := hkept _ _ _ hblob
      exact ⟨info'', name, hblob', hhash⟩
    · obtain rfl := List.mem_singleton.mp hlast
      obtain ⟨-, hkey⟩ := hreorganizes
      dsimp only at hkey
      have hblob : (r.place op tagId blobName info entry).blobs.find? (tagId, blobName) = some info :=
        AMap.find?_insertOrAssign_self _ _ _
      rw [← hkey]
      exact ⟨info, infoOf_new hblob⟩
  · intro l hl
    refine Nat.lt_succ_iff.mpr ?_
    obtain hlog | hseen := hl
    · obtain hold | hlast := List.mem_append.mp hlog
      · exact Nat.le_of_lt (h.numbers l (.inl hold))
      · rw [List.mem_singleton.mp hlast]
    · exact Nat.le_of_lt (h.numbers l (.inr hseen))
  · intro key hcached l hl hreorganizes hchecked
    obtain ⟨l', ⟨hvisible, hdue⟩, hseen⟩ := h.live key hcached l hl hreorganizes hchecked
    obtain ⟨hlog, htime⟩ := List.mem_filter.mp hvisible
    exact ⟨l', ⟨List.mem_filter.mpr ⟨List.mem_append_left _ hlog, htime⟩, hdue⟩, hseen⟩

theorem inv_poll (h : Inv r) {drain : DrainOrder} (hskip : r.NothingSkipped now) :
    Inv (r.take (.poll drain now)) := by
  have hpolled := poll_spec h drain now
  refine ⟨h.distinct, hpolled.sound, hpolled.clean, fun key hcached => ?_, h.sources,
    fun l hl => ?_, fun key hcached l hl hreorganizes hchecked => ?_⟩
  · by_cases hchecks : r.Checks now key
    · obtain ⟨-, -, -, hhash⟩ := (mem_dirty h key).mp hchecks.1
      exact hhash
    · exact h.hashed key fun hnone => hcached ((hpolled.others key hchecks).trans hnone)
  · obtain hlog | hseen := hl
    · exact h.numbers l (.inl hlog)
    · obtain hold | hvisible := List.mem_append.mp hseen
      · exact h.numbers l (.inr hold)
      · exact h.numbers l (.inl (List.mem_filter.mp hvisible).1)
  · by_cases hchecks : r.Checks now key
    · -- The check came after every entry.
      have hle : (if r.Checks now key then r.logged else r.checked key) ≤ l.number := hchecked
      rw [if_pos hchecks] at hle
      have hlt : l.number < r.logged := by
        obtain hold | hvisible := List.mem_append.mp hl
        · exact h.numbers l (.inr hold)
        · exact h.numbers l (.inl (List.mem_filter.mp hvisible).1)
      omega
    · have hle : (if r.Checks now key then r.logged else r.checked key) ≤ l.number := hchecked
      rw [if_neg hchecks] at hle
      have hcachedBefore : r.tracker.blobCache.find? key ≠ none := fun hnone =>
        hcached ((hpolled.others key hchecks).trans hnone)
      obtain ⟨l₁, hdue₁⟩ := due_of_seen h hcachedBefore hl hreorganizes hle
      -- It is dirty and not checked, so it was checked just before.
      have hdebounced : r.tracker.debounced now key = true := by
        cases hfree : r.tracker.debounced now key with
        | true => rfl
        | false => exact absurd ⟨hdue₁.dirty h hcachedBefore, hfree⟩ hchecks
      obtain ⟨l₂, hdue₂, hlatest⟩ := hskip key l₁ hdebounced hdue₁
      obtain ⟨hlog, htime⟩ := List.mem_filter.mp hdue₂.1
      have hreturned := hpolled.latest l₂.entry.logicalTime (of_decide_eq_true htime) hlatest
      refine ⟨l₂, ⟨List.mem_filter.mpr ⟨hlog, decide_eq_true hreturned⟩, hdue₂.2.1, ?_⟩,
        List.mem_append_right _ hdue₂.1⟩
      exact (if_neg hchecks).le.trans hdue₂.2.2

theorem inv_take (h : Inv r) (a : Action) (hgood : r.Good a) : Inv (r.take a) := by
  cases a with
  | put tagId blobName info entry => exact inv_place h hgood
  | reorganize tagId blobName info entry =>
    have htake : r.take (.reorganize tagId blobName info entry) =
        if r.blobs.contains (tagId, blobName) then r.place 6 tagId blobName info entry else r := rfl
    rw [htake]
    by_cases hthere : r.blobs.contains (tagId, blobName) = true
    · rw [if_pos hthere]
      obtain ⟨info', hblob⟩ := AMap.contains_iff.mp hthere
      refine inv_place h fun name info'' hblob' hhash => ?_
      exact h.distinct _ _ _ _ _ hblob' (AMap.find?_eq_some_iff.mpr hblob) hhash
    · rwa [if_neg hthere]
  | forget keep =>
    refine ⟨h.distinct, h.sound, h.clean, h.hashed,
      fun l hl => h.sources l (List.mem_filter.mp hl).1, fun l hl => ?_,
      fun key hcached l hl hreorganizes hchecked => ?_⟩
    · exact h.numbers l (hl.imp (fun hlog => (List.mem_filter.mp hlog).1) id)
    · obtain ⟨l₁, hdue₁, hseen₁⟩ := h.live key hcached l hl hreorganizes hchecked
      obtain ⟨l₂, ⟨hvisible, hdue⟩, hseen, hkeep⟩ := hgood key l₁ hcached hdue₁ hseen₁
      obtain ⟨hlog, htime⟩ := List.mem_filter.mp hvisible
      exact ⟨l₂, ⟨List.mem_filter.mpr ⟨List.mem_filter.mpr ⟨hlog, hkeep⟩, htime⟩, hdue⟩, hseen⟩
  | poll drain now => exact inv_poll h hgood.2

/-! ### Missing and inventing nothing -/

/-- A poll, this one or an earlier one, saw that the blob was reorganized since its cached
placement was taken. -/
def Run.Stale (r : Run) (key : BlobKey) : Prop :=
  ∃ l ∈ r.seen ++ r.visible, l.Reorganizes key ∧ r.checked key ≤ l.number

/-- A poll after the interval reports every block of a stale blob that moved, with the pool it
came from, and no poll reports a block that stayed on its pool. -/
structure Run.Tracks (r : Run) (drain : DrainOrder) (now : Nat) : Prop where
  complete : ∀ tagId blobName info cached, r.blobs.find? (tagId, blobName) = some info →
    r.tracker.blobCache.find? (.new tagId (computeHash tagId blobName)) = some cached →
    r.Stale (.new tagId (computeHash tagId blobName)) →
    cached.lastCheck + r.tracker.pollInterval ≤ now →
    ∀ i block pool, WasOn cached.info.blocks info.blocks i block pool → pool ≠ block.poolId →
      ∃ event ∈ r.events drain now, event.blobKey = .new tagId (computeHash tagId blobName) ∧
        event.blockIndex = i ∧ event.fromPool = some pool ∧ event.toPool = block.poolId
  sound : ∀ event ∈ r.events drain now, ∀ tagId blobName info cached,
    r.blobs.find? (tagId, blobName) = some info →
    event.blobKey = .new tagId (computeHash tagId blobName) →
    r.tracker.blobCache.find? event.blobKey = some cached →
    ∀ block, ¬ WasOn cached.info.blocks info.blocks event.blockIndex block block.poolId

theorem Inv.tracks (h : Inv r) {drain : DrainOrder} (hmatching : r.Matching now) :
    r.Tracks drain now := by
  have hpolled := poll_spec h drain now
  refine ⟨fun tagId blobName info cached hblob hcached hstale hafter i block pool hwas hmoved => ?_,
    fun event hevent tagId blobName info cached hblob hkey hcached block => ?_⟩
  · have hne : r.tracker.blobCache.find? (.new tagId (computeHash tagId blobName)) ≠ none :=
      fun hnone => by
        rw [hnone] at hcached
        cases hcached
    obtain ⟨l, hl, hreorganizes, hchecked⟩ := hstale
    obtain ⟨l', hdue⟩ := due_of_seen h hne hl hreorganizes hchecked
    have hfree : r.tracker.debounced now (.new tagId (computeHash tagId blobName)) = false := by
      rw [TierMovementTracker.debounced, hcached]
      exact decide_eq_false (by omega)
    have hinfo := infoOf_new hblob
    have hchecks : r.Checks now (.new tagId (computeHash tagId blobName)) :=
      ⟨hdue.dirty h hne, hfree⟩
    obtain ⟨event, hevent, hfields⟩ := detectMovements_complete
      (hmatching _ _ _ hchecks hcached hinfo) hwas hmoved
    exact ⟨event, (hpolled.events event).mpr ⟨_, hchecks, cached, info, hcached, hinfo, hevent⟩,
      hfields⟩
  · obtain ⟨key, hchecks, cached', info', hcached', hinfo', hdetected⟩ :=
      (hpolled.events event).mp hevent
    obtain ⟨i, block', -, hdetect⟩ := mem_detectMovements.mp hdetected
    have heq : event.blobKey = key := (detectMovement_key hdetect).1
    rw [heq, hcached', Option.some.injEq] at hcached
    subst hcached
    have hinfo : InfoOf r.blobs key info := by
      rw [← heq, hkey]
      exact infoOf_new hblob
    rw [hinfo.unique h.distinct hinfo']
    exact detectMovements_sound (hmatching _ _ _ hchecks hcached' hinfo') hdetected block

/-- A step of a run that keeps to the condition. -/
def Run.Step (a : Action) (r r' : Run) : Prop := r' = r.take a ∧ r.Good a

theorem inv_of_run {actions : List Action} {pollInterval : Nat}
    (hrun : Along Run.Step actions (.new pollInterval) r) : Inv r :=
  hrun.invariant (fun a _ _ _ hs hstep => by
    rw [hstep.1]
    exact inv_take hs a hstep.2) (inv_new pollInterval)

end

/--
**What the tracker misses and invents.**  Nothing, in every run whose steps keep to the
condition: there every poll reports what moved, and only that.
-/
theorem run_tracks {r : Run} {actions : List Action} {pollInterval : Nat}
    (hrun : Along Run.Step actions (.new pollInterval) r) {drain : DrainOrder} {now : Nat}
    (hgood : r.Good (.poll drain now)) : r.Tracks drain now :=
  (inv_of_run hrun).tracks hgood.1

/-! ### Runs that miss and invent -/

/-- A single block of the same size is where the old one was. -/
theorem wasOn_single {b' : BlobBlockInfo} (hsize : b'.blockSize = b.blockSize)
    (hpos : 0 < b.blockSize) : WasOn [b] [b'] 0 b' b.poolId where
  at_index := rfl
  nonempty := hsize ▸ hpos
  bytes x hx := by
    rw [hsize] at hx
    simp only [poolAt, startOf, List.take_zero, List.map_nil, List.sum_nil, Nat.zero_add, if_pos hx]

theorem poolAt_startOf {blocks : List BlobBlockInfo} {x : Nat}
    (hb : blocks[i]? = some b) (hx : x < b.blockSize.toNat) :
    poolAt blocks (startOf blocks i + x) = some b.poolId := by
  induction blocks generalizing i with
  | nil => cases hb
  | cons c rest ih =>
    cases i with
    | zero =>
      cases hb
      simp only [poolAt, startOf, List.take_zero, List.map_nil, List.sum_nil, Nat.zero_add,
        if_pos hx]
    | succ i =>
      have hstart : startOf (c :: rest) (i + 1) = c.blockSize.toNat + startOf rest i := by
        simp only [startOf, List.take_succ_cons, List.map_cons, List.sum_cons]
      have hout : ¬ c.blockSize.toNat + startOf rest i + x < c.blockSize.toNat := by omega
      rw [hstart, poolAt, if_neg hout, Nat.add_assoc, Nat.add_sub_cancel_left]
      exact ih hb

/-- A block of an unchanged placement stayed on its pool. -/
theorem wasOn_self {blocks : List BlobBlockInfo}
    (hb : blocks[i]? = some b) (hpos : 0 < b.blockSize) : WasOn blocks blocks i b b.poolId :=
  ⟨hb, hpos, fun _ hx => poolAt_startOf hb hx⟩

def inOrder : DrainOrder := ⟨id, fun _ => .refl _⟩

/-- A telemetry entry of a logical time. -/
def entryAt (logicalTime : UInt64) : CteTelemetry := ⟨0, 0, 0, ⟨0, 0⟩, 0, 0, 0, logicalTime⟩

def tagOne : TagId := ⟨0, 1⟩

/-- Ten bytes in one block. -/
def placedOn (poolId blockOffset : UInt64) : BlobInfo := ⟨⟨0⟩, 10, [⟨poolId, 10, blockOffset⟩]⟩

/-- Two blocks of ten bytes at one offset of two pools. -/
def onTwoPools : BlobInfo := ⟨⟨0⟩, 20, [⟨1, 10, 0⟩, ⟨2, 10, 0⟩]⟩

def runOf (actions : List Action) : Run := actions.foldl Run.take (.new 100)

/-- A blob is put and reorganized, seen by a poll, and reorganized again. -/
def reorganizedTo (before after : BlobInfo) : Run :=
  runOf [.put tagOne [97] before (entryAt 1), .reorganize tagOne [97] before (entryAt 2),
    .poll inOrder 0, .reorganize tagOne [97] after (entryAt 3)]

/-- A blob is reorganized, and another one after it, within the interval of a poll. -/
def forgotten : Run :=
  runOf [.put tagOne [97] (placedOn 1 0) (entryAt 1), .put tagOne [98] (placedOn 1 10) (entryAt 2),
    .reorganize tagOne [97] (placedOn 1 0) (entryAt 3), .poll inOrder 0,
    .reorganize tagOne [97] (placedOn 2 0) (entryAt 4),
    .reorganize tagOne [98] (placedOn 2 10) (entryAt 5), .poll inOrder 50]

/-- A single block that keeps its size and its offset is found. -/
theorem matches_single {b' : BlobBlockInfo} (hsize : b'.blockSize = b.blockSize)
    (hoffset : b'.blockOffset = b.blockOffset) : Matches [b] [b'] := by
  intro i block pool hwas
  have hblock : block = b' := by
    have hmem := List.mem_of_getElem? hwas.at_index
    exact List.mem_singleton.mp hmem
  subst hblock
  refine ⟨b, by simp [hsize, hoffset], ?_⟩
  have hpos : 0 < block.blockSize.toNat := UInt64.lt_iff_toNat_lt.mp hwas.nonempty
  have hi : i = 0 := by
    have hlt := (List.getElem?_eq_some_iff.mp hwas.at_index).1
    simpa using hlt
  have hfirst := hwas.bytes 0 hpos
  rw [hi] at hfirst
  rw [hsize] at hpos
  simpa [poolAt, startOf, hpos] using hfirst

/-- A reorganization that moves the block and keeps its offset is reported. -/
theorem run_tracks_moved :
    (reorganizedTo (placedOn 1 0) (placedOn 2 0)).Tracks inOrder 200 := by
  have hcache : (reorganizedTo (placedOn 1 0) (placedOn 2 0)).tracker.blobCache.entries =
      [(.new tagOne (computeHash tagOne [97]), ⟨placedOn 1 0, 0⟩)] := by decide +kernel
  have hblobs : (reorganizedTo (placedOn 1 0) (placedOn 2 0)).blobs.entries =
      [((tagOne, [97]), placedOn 2 0)] := by decide +kernel
  have hcached : ∀ key cached,
      (reorganizedTo (placedOn 1 0) (placedOn 2 0)).tracker.blobCache.find? key = some cached →
        cached = ⟨placedOn 1 0, 0⟩ := by
    intro key cached hfind
    have hmem := AMap.find?_eq_some_iff.mp hfind
    rw [hcache] at hmem
    exact (Prod.mk.inj (List.mem_singleton.mp hmem)).2
  have hrun : Along Run.Step [.put tagOne [97] (placedOn 1 0) (entryAt 1),
      .reorganize tagOne [97] (placedOn 1 0) (entryAt 2), .poll inOrder 0,
      .reorganize tagOne [97] (placedOn 2 0) (entryAt 3)] (.new 100)
      (reorganizedTo (placedOn 1 0) (placedOn 2 0)) :=
    ⟨_, ⟨rfl, fun _ _ h => by cases h⟩, _, ⟨rfl, trivial⟩, _,
      ⟨rfl, And.intro (fun _ _ _ _ h => by cases h) (fun _ _ h => by cases h)⟩, _,
      ⟨rfl, trivial⟩, rfl⟩
  refine run_tracks hrun (And.intro (fun key cached info _ hfind hinfo => ?_)
    (fun key l hdebounced => ?_))
  · obtain ⟨name, hblob, -⟩ := hinfo
    have hmem := AMap.find?_eq_some_iff.mp hblob
    rw [hblobs] at hmem
    rw [hcached key cached hfind, (Prod.mk.inj (List.mem_singleton.mp hmem)).2]
    exact matches_single rfl rfl
  · rw [TierMovementTracker.debounced] at hdebounced
    split at hdebounced
    · rename_i cached hfind
      rw [hcached key cached hfind] at hdebounced
      exact absurd hdebounced (by decide +kernel)
    · cases hdebounced

theorem missed_and_invented :
    ¬ (reorganizedTo (placedOn 1 0) (placedOn 2 4096)).Tracks inOrder 200 ∧
      ¬ forgotten.Tracks inOrder 1000 ∧
      ¬ (reorganizedTo onTwoPools onTwoPools).Tracks inOrder 200 := by
  refine ⟨fun h => ?_, fun h => ?_, fun h => ?_⟩
  · have hnone : ∀ event ∈ (reorganizedTo (placedOn 1 0) (placedOn 2 4096)).events inOrder 200,
        event.fromPool ≠ some 1 := by decide +kernel
    obtain ⟨event, hevent, -, -, hfrom, -⟩ := h.complete tagOne [97] (placedOn 2 4096)
      ⟨placedOn 1 0, 0⟩ (by decide +kernel) (by decide +kernel)
      (by unfold Run.Stale; decide +kernel) (by decide) 0 ⟨2, 10, 4096⟩ 1
      (wasOn_single rfl (by decide)) (by decide)
    exact hnone event hevent hfrom
  · have hnone : forgotten.events inOrder 1000 = [] := by decide +kernel
    obtain ⟨event, hevent, -⟩ := h.complete tagOne [97] (placedOn 2 0)
      ⟨placedOn 1 0, 0⟩ (by decide +kernel) (by decide +kernel)
      (by unfold Run.Stale; decide +kernel) (by decide) 0 ⟨2, 10, 0⟩ 1
      (wasOn_single rfl (by decide)) (by decide)
    rw [hnone] at hevent
    cases hevent
  · have hevent : ⟨.new tagOne (computeHash tagOne [97]), 1, some 1, 2, 10, 200, 0⟩ ∈
        (reorganizedTo onTwoPools onTwoPools).events inOrder 200 := by decide +kernel
    exact h.sound _ hevent tagOne [97] onTwoPools ⟨onTwoPools, 0⟩ (by decide +kernel) rfl
      (by decide +kernel) ⟨2, 10, 0⟩ (wasOn_self rfl (by decide))

end TierTracker
end IowarpCore
