/-
What the tasks of one container do to its names and ids of tags.

Only `GetOrCreateTag` and `DelTag` change them, and each does it in one stretch between two
awaits.  So a task that waits can say what it will do to the maps as it will find them
then: `Outcome` lists the changes, and `wp_reply` says that every task ends in one of them
and leaves the maps alone before.
-/
import IowarpCore.Cte.Sharding
import IowarpCore.Proofs.Awaits
import IowarpCore.Proofs.TagIdentity

namespace IowarpCore
namespace Cte

open Bdev (Request Reply)
open Co

/-- What a container knows of tags, their totals apart. -/
structure TagMaps where
  names : Bytes → Option TagId
  infos : TagId → Option Bytes
  nextMinor : UInt32

def Container.tagMaps (c : Container) : TagMaps where
  names := c.tagNameToId.find?
  infos := c.tagName?
  nextMinor := c.nextTagIdMinor

namespace TagMaps

def remember (m : TagMaps) (tagName : Bytes) (tagId : TagId) : TagMaps :=
  { m with names := Function.update m.names tagName (some tagId) }

def put (m : TagMaps) (tagName : Bytes) (tagId : TagId) : TagMaps :=
  { m.remember tagName tagId with infos := Function.update m.infos tagId (some tagName) }

/-- The id goes, and the name with it unless the name is empty. -/
def drop (m : TagMaps) (tagId : TagId) : TagMaps :=
  { m with
    names := fun name => if name ≠ [] ∧ m.infos tagId = some name then none else m.names name
    infos := Function.update m.infos tagId none }

end TagMaps

/-! ### Tasks that leave the tags alone -/

section

variable {ptr : BlobPtr}

theorem tagMaps_setTagTotal (c : Container) (tagId : TagId) (total : UInt64) :
    (c.setTagTotal tagId total).tagMaps = c.tagMaps :=
  congrArg (fun infos => (⟨_, infos, _⟩ : TagMaps)) (funext (tagName?_setTagTotal c tagId total))

theorem tagMaps_changeTagTotal (c : Container) (tagId : TagId) (newSize oldSize : UInt64) :
    (c.changeTagTotal tagId newSize oldSize).tagMaps = c.tagMaps := by
  unfold Container.changeTagTotal
  cases c.tagTotal? tagId with
  | none => rfl
  | some total =>
    dsimp only
    split
    · exact tagMaps_setTagTotal c tagId _
    · exact tagMaps_setTagTotal c tagId _

theorem tagMaps_dropFromTagTotal (c : Container) (tagId : TagId) (blobSize : UInt64) :
    (c.dropFromTagTotal tagId blobSize).tagMaps = c.tagMaps := by
  unfold Container.dropFromTagTotal
  cases c.tagTotal? tagId with
  | none => rfl
  | some total => exact tagMaps_setTagTotal c tagId _

theorem tagMaps_updateBlob (c : Container) (f : BlobInfo → BlobInfo) :
    (c.updateBlob ptr f).tagMaps = c.tagMaps := by
  unfold Container.updateBlob
  cases c.deref? ptr with
  | none => rfl
  | some info => rfl

theorem tagMaps_assignBlob (c : Container) (key : Bytes) (info : BlobInfo) :
    (c.assignBlob key info).2.tagMaps = c.tagMaps := by
  unfold Container.assignBlob
  cases c.blobs.find? key with
  | none => rfl
  | some node => rfl

theorem keeps_deref : Preserves Container.tagMaps (deref ptr) := by
  refine preserves_bind preserves_read fun c => ?_
  cases c.deref? ptr with
  | none => exact preserves_bind (preserves_modify fun _ => rfl) fun _ => preserves_ret _
  | some info => exact preserves_ret info

theorem keeps_updateBlob (f : BlobInfo → BlobInfo) :
    Preserves Container.tagMaps (updateBlob ptr f) :=
  preserves_modify fun c => tagMaps_updateBlob c f

theorem keeps_logBlobTxn (t : Wal.Txn) : Preserves Container.tagMaps (logBlobTxn t) :=
  preserves_bind preserves_draw fun _ => preserves_modify fun _ => rfl

theorem keeps_checkBlobExists (blobName : Bytes) (tagId : TagId) :
    Preserves Container.tagMaps (checkBlobExists blobName tagId) :=
  preserves_ite (preserves_ret _) (preserves_bind preserves_read fun _ => preserves_ret _)

/-- The entry is made from the container as it was just read. -/
theorem keeps_createNewBlob (blobName : Bytes) (tagId : TagId) (blobScore : F32) :
    Preserves Container.tagMaps (createNewBlob blobName tagId blobScore) := by
  refine preserves_ite (preserves_ret _) fun c => ?_
  exact fun _ => tagMaps_assignBlob c (compositeKey tagId blobName) _

/-! ### Freeing and allocating -/

theorem keeps_freeLoop (groups : List (PoolId × PoolQuery × List Bdev.Block)) :
    Preserves Container.tagMaps (freeLoop groups) := by
  induction groups with
  | nil => exact preserves_ret ()
  | cons g rest ih =>
    obtain ⟨pool, query, blocks⟩ := g
    refine preserves_bind (preserves_call _) fun reply => ?_
    by_cases hcode : reply.returnCode = 0
    · simp only [hcode, if_true]
      exact preserves_bind (preserves_modify fun _ => rfl) fun _ => ih
    · simp only [hcode, if_false]
      exact ih

theorem keeps_freeByPool (blocks : List BlobBlock) :
    Preserves Container.tagMaps (freeByPool blocks) :=
  preserves_bind (preserves_shuffle _) keeps_freeLoop

theorem keeps_freeAllBlobBlocks : Preserves Container.tagMaps (freeAllBlobBlocks ptr) :=
  preserves_bind keeps_deref fun _ => preserves_bind (keeps_freeByPool _) fun _ =>
    preserves_bind (keeps_updateBlob _) fun _ => preserves_ret _

theorem keeps_clearBlob (blobScore : F32) (offset size : UInt64) :
    Preserves Container.tagMaps (clearBlob ptr blobScore offset size) :=
  preserves_ite (preserves_ret _) (preserves_bind keeps_deref fun _ =>
    preserves_ite (preserves_ret _) (preserves_bind keeps_freeAllBlobBlocks fun _ => preserves_ret _))

theorem keeps_selectTargets (cfg : Config) (targets : List TargetInfo) (blobScore : F32)
    (dataSize : UInt64) : Preserves Container.tagMaps (selectTargets cfg targets blobScore dataSize) :=
  fun _ => wp_selectTargets fun _ _ _ => rfl

theorem keeps_allocateFromTarget (target : TargetInfo) (size : UInt64) :
    Preserves Container.tagMaps (allocateFromTarget target size) :=
  preserves_ite (preserves_ret _) (preserves_bind (preserves_call _) fun _ => preserves_ret _)

theorem keeps_allocateLoop (targets : List TargetInfo) :
    ∀ remaining, Preserves Container.tagMaps (allocateLoop ptr targets remaining) := by
  induction targets with
  | nil => exact fun remaining => preserves_ret remaining
  | cons selected rest ih =>
    intro remaining
    unfold allocateLoop
    refine preserves_ite (preserves_ret _) (preserves_bind preserves_read fun c => ?_)
    cases c.targets.find? selected.bdevClient with
    | none => exact ih remaining
    | some target =>
      refine preserves_ite (ih remaining) ?_
      refine preserves_bind (keeps_allocateFromTarget _ _) fun allocated => ?_
      cases allocated with
      | none => exact ih remaining
      | some offset => exact preserves_bind (keeps_updateBlob _) fun _ => ih _

theorem keeps_extendBlob (cfg : Config) (offset size : UInt64) (blobScore : F32) (level : Int) :
    Preserves Container.tagMaps (extendBlob cfg ptr offset size blobScore level) := by
  refine preserves_bind keeps_deref fun info => preserves_ite (preserves_ret _) ?_
  refine preserves_bind preserves_read fun c => preserves_bind (preserves_shuffle _) fun available => ?_
  refine preserves_ite (preserves_ret _) ?_
  refine preserves_bind (keeps_selectTargets _ _ _ _) fun selected => ?_
  refine preserves_ite (preserves_ret _) ?_
  refine preserves_bind (keeps_allocateLoop _ _) fun remaining => ?_
  exact preserves_ite (preserves_ret _) (preserves_ret _)

/-! ### Putting, getting and deleting blobs -/

theorem keeps_putClear (t : PutBlobTask) (blobScore : F32) :
    Preserves Container.tagMaps (putClear t blobScore ptr) :=
  preserves_bind (keeps_clearBlob _ _ _) fun _ =>
    preserves_ite (preserves_bind (keeps_logBlobTxn _) fun _ => preserves_ret _)
      (preserves_bind keeps_deref fun _ => preserves_ret _)

theorem keeps_logBlocks (t : PutBlobTask) : Preserves Container.tagMaps (logBlocks t ptr) :=
  preserves_bind keeps_deref fun _ => preserves_ite (preserves_ret _) (keeps_logBlobTxn _)

theorem keeps_modifyExistingData (blocks : List BlobBlock) (data : Nat → UInt8)
    (size offset : UInt64) :
    Preserves Container.tagMaps (modifyExistingData blocks data size offset) :=
  preserves_bind (preserves_callAll _ _) fun _ => preserves_ret _

theorem keeps_readData (blocks : List BlobBlock) (buffer : Nat → UInt8) (size offset : UInt64) :
    Preserves Container.tagMaps (readData blocks buffer size offset) :=
  preserves_bind (preserves_callAll _ _) fun _ => preserves_ret _

theorem keeps_putFinish (t : PutBlobTask) (blobScore : F32) (old : UInt64) :
    Preserves Container.tagMaps (putFinish t blobScore ptr old) :=
  preserves_bind (keeps_updateBlob _) fun _ => preserves_bind keeps_deref fun _ =>
    preserves_modify fun c => tagMaps_changeTagTotal c _ _ _

theorem keeps_putStore (cfg : Config) (t : PutBlobTask) (data : Nat → UInt8) (blobScore : F32)
    (old : UInt64) : Preserves Container.tagMaps (putStore cfg t data blobScore ptr old) := by
  refine preserves_bind (keeps_extendBlob _ _ _ _ _) fun allocResult => ?_
  refine preserves_ite (preserves_ret _) (preserves_bind (keeps_logBlocks _) fun _ => ?_)
  refine preserves_bind keeps_deref fun info => ?_
  refine preserves_bind (keeps_modifyExistingData _ _ _ _) fun writeResult => ?_
  refine preserves_ite (preserves_ret _) ?_
  exact preserves_bind (keeps_putFinish _ _ _) fun _ => preserves_ret _

theorem keeps_resolveScore (score : F32) (found : Option BlobPtr) :
    Preserves Container.tagMaps (resolveScore score found) := by
  refine preserves_ite ?_ (preserves_ret _)
  cases found with
  | none => exact preserves_ret _
  | some ptr => exact preserves_bind keeps_deref fun _ => preserves_ret _

theorem keeps_putBlob (cfg : Config) (t : PutBlobTask) :
    Preserves Container.tagMaps (putBlob cfg t) := by
  refine preserves_ite (preserves_ret _) ?_
  cases t.blobData with
  | none => exact preserves_ret _
  | some data =>
    refine preserves_ite (preserves_ret _) ?_
    refine preserves_bind (keeps_checkBlobExists _ _) fun found => ?_
    refine preserves_bind (keeps_resolveScore _ _) fun blobScore => ?_
    refine preserves_ite (preserves_ret _) ?_
    cases found with
    | some ptr =>
      exact preserves_bind (keeps_putClear _ _) fun old => keeps_putStore _ _ _ _ _
    | none =>
      refine preserves_bind (keeps_createNewBlob _ _ _) fun created => ?_
      cases created with
      | none => exact preserves_ret _
      | some ptr => exact keeps_putStore _ _ _ _ _

theorem keeps_getBlob (t : GetBlobTask) : Preserves Container.tagMaps (getBlob t) := by
  refine preserves_ite (preserves_ret _) (preserves_ite (preserves_ret _) ?_)
  refine preserves_bind (keeps_checkBlobExists _ _) fun found => ?_
  cases found with
  | none => exact preserves_ret _
  | some ptr => exact preserves_bind keeps_deref fun _ => keeps_readData _ _ _ _

theorem keeps_delBlob (tagId : TagId) (blobName : Bytes) :
    Preserves Container.tagMaps (delBlob tagId blobName) := by
  refine preserves_ite (preserves_ret _) ?_
  refine preserves_bind (keeps_checkBlobExists _ _) fun found => ?_
  cases found with
  | none => exact preserves_ret _
  | some ptr =>
    refine preserves_bind keeps_deref fun info => ?_
    refine preserves_bind keeps_freeAllBlobBlocks fun _ => ?_
    refine preserves_bind (preserves_modify fun c => tagMaps_dropFromTagTotal c _ _) fun _ => ?_
    refine preserves_bind (preserves_modify fun _ => rfl) fun _ => ?_
    exact preserves_bind (keeps_logBlobTxn _) fun _ => preserves_ret _

theorem keeps_delBlobs (tagId : TagId) (blobNames : List Bytes) :
    Preserves Container.tagMaps (delBlobs tagId blobNames) := by
  induction blobNames with
  | nil => exact preserves_ret ()
  | cons blobName rest ih => exact preserves_bind (keeps_delBlob _ _) fun _ => ih

theorem keeps_reorganizeBlob (cfg : Config) (t : ReorganizeBlobTask) :
    Preserves Container.tagMaps (reorganizeBlob cfg t) := by
  refine preserves_ite (preserves_ret _) (preserves_ite (preserves_ret _) ?_)
  refine preserves_bind (keeps_checkBlobExists _ _) fun found => ?_
  cases found with
  | none => exact preserves_ret _
  | some ptr =>
    refine preserves_bind keeps_deref fun info => ?_
    refine preserves_ite (preserves_ret _) (preserves_ite (preserves_ret _) ?_)
    refine preserves_ite (preserves_ret _) ?_
    refine preserves_bind (keeps_getBlob _) fun r => preserves_ite (preserves_ret _) ?_
    exact preserves_bind (keeps_putBlob _ _) fun _ =>
      preserves_ite (preserves_ret _) (preserves_ret _)

theorem keeps_flushOne (cfg : Config) (level : Int) (entry : FlushEntry) :
    Preserves Container.tagMaps (flushOne cfg level entry) := by
  refine preserves_bind preserves_read fun c => ?_
  cases c.blobs.find? entry.compositeKey with
  | none => exact preserves_ret _
  | some node =>
    refine preserves_ite (preserves_ret _) (preserves_ite (preserves_ret _) ?_)
    refine preserves_ite (preserves_ret _) ?_
    refine preserves_bind (keeps_readData _ _ _ _) fun r => preserves_ite (preserves_ret _) ?_
    refine preserves_bind keeps_deref fun info => preserves_bind preserves_read fun c => ?_
    refine preserves_bind (keeps_freeByPool _) fun _ => ?_
    refine preserves_bind (keeps_updateBlob _) fun _ => ?_
    exact preserves_bind (keeps_putBlob _ _) fun _ => preserves_ret _

theorem keeps_flushLoop (cfg : Config) (level : Int) (entries : List FlushEntry) :
    ∀ counts, Preserves Container.tagMaps (flushLoop cfg level entries counts) := by
  induction entries with
  | nil => exact fun counts => preserves_ret counts
  | cons entry rest ih =>
    intro counts
    obtain ⟨blobs, bytes⟩ := counts
    exact preserves_bind (keeps_flushOne _ _ _) fun _ => preserves_ite (ih _) (ih _)

theorem keeps_flushData (cfg : Config) (level : Int) :
    Preserves Container.tagMaps (flushData cfg level) := by
  refine preserves_bind preserves_read fun c => preserves_ite ?_ (preserves_ret _)
  exact preserves_bind (preserves_shuffle _) fun _ => keeps_flushLoop _ _ _ _

end

/-! ### Tasks that change them -/

theorem find?_insert_update {V : Type} (m : AMap Bytes V) (k : Bytes) (v : V) :
    (m.insertOrAssign k v).find? = Function.update m.find? k (some v) := by
  funext k'
  rw [AMap.find?_insertOrAssign, Function.update_apply]

/-- A new tag, recorded. -/
theorem tagMaps_addTag (c : Container) (worker : Nat) (tagName : Bytes) (tagId : TagId) :
    (c.addTag worker tagName tagId).tagMaps = c.tagMaps.put tagName tagId := by
  have hinfos : (c.addTag worker tagName tagId).tagName? =
      Function.update c.tagName? tagId (some tagName) := by
    funext id
    rw [addTag_info, Function.update_apply]
  simp only [Container.tagMaps, TagMaps.put, TagMaps.remember, TagMaps.mk.injEq]
  exact ⟨find?_insert_update _ _ _, hinfos, rfl⟩

/-- A tag forgotten; it may be gone already. -/
theorem tagMaps_dropTag (c : Container) (worker : Nat) (tagId : TagId) (tagName : Bytes) :
    (c.dropTag worker tagId tagName).tagMaps = c.tagMaps.drop tagId := by
  have hnames : (c.forgetTag tagId).tagNameToId.find? = (c.tagMaps.drop tagId).names := by
    funext name
    show _ = if name ≠ [] ∧ c.tagName? tagId = some name then none else c.tagNameToId.find? name
    unfold Container.forgetTag
    dsimp only
    rcases Option.eq_none_or_eq_some (c.tagIdToInfo.find? tagId) with hinfo | ⟨info, hinfo⟩
    · have hname : c.tagName? tagId = none := by rw [Container.tagName?, hinfo, Option.map_none]
      rw [hinfo, hname, if_neg fun hand => by simp at hand]
    · have hname : c.tagName? tagId = some info.tagName := by
        rw [Container.tagName?, hinfo, Option.map_some]
      rw [hinfo]
      dsimp only
      simp only [hname, Option.some.injEq]
      by_cases hempty : info.tagName.isEmpty = true
      · rw [if_pos hempty, if_neg]
        intro hand
        rw [hand.2, List.isEmpty_iff] at hempty
        exact hand.1 hempty
      · rw [if_neg hempty, AMap.find?_erase]
        by_cases hn : name = info.tagName
        · rw [if_pos hn, if_pos ⟨by rwa [hn, ne_eq, ← List.isEmpty_iff], hn.symm⟩]
        · rw [if_neg hn, if_neg fun hand => hn hand.2.symm]
  have hinfos : (c.dropTag worker tagId tagName).tagName? =
      Function.update c.tagName? tagId none := by
    funext id
    rw [dropTag_info, Function.update_apply]
  have hdrop : (c.dropTag worker tagId tagName).tagMaps =
      ⟨(c.forgetTag tagId).tagNameToId.find?, (c.dropTag worker tagId tagName).tagName?,
        (c.forgetTag tagId).nextTagIdMinor⟩ := rfl
  rw [hdrop, hnames, hinfos, nextTagIdMinor_forgetTag]
  rfl

/-- What became of a task on node `nodeId`, which found the maps `m` when it went on for the
last time and left the container `c`, with its reply. -/
inductive Outcome (nodeId : UInt32) (m : TagMaps) (c : Container) : Task → UInt32 × TagId → Prop
  | same {t : Task} {r : UInt32 × TagId} : c.tagMaps = m → TagEvent.of (t, r) = [] →
      Outcome nodeId m c t r
  | known {tagName : Bytes} {preferredId tagId : TagId} : m.names tagName = some tagId →
      c.tagMaps = m → Outcome nodeId m c (.getOrCreateTag tagName preferredId) (0, tagId)
  | remote {tagName : Bytes} {preferredId : TagId} : preferredId.major ≠ 0 →
      preferredId.major ≠ nodeId →
      Outcome nodeId m c (.getOrCreateTag tagName preferredId) (0, preferredId)
  | preferred {tagName : Bytes} {preferredId : TagId} : m.names tagName = none →
      preferredId ≠ UniqueId.null → m.infos preferredId = none →
      c.tagMaps = m.put tagName preferredId →
      Outcome nodeId m c (.getOrCreateTag tagName preferredId) (0, preferredId)
  | generated {tagName : Bytes} {preferredId : TagId} : m.names tagName = none →
      ¬(preferredId ≠ UniqueId.null ∧ m.infos preferredId = none) →
      c.tagMaps = { m.put tagName ⟨nodeId, m.nextMinor⟩ with nextMinor := m.nextMinor + 1 } →
      Outcome nodeId m c (.getOrCreateTag tagName preferredId) (0, ⟨nodeId, m.nextMinor⟩)
  | deleted {tagId id : TagId} {tagName : Bytes} : id.major = nodeId →
      c.tagMaps = m.drop id → (∀ key, hasTagPrefix id key = true → c.blobs.find? key = none) →
      Outcome nodeId m c (.delTag tagId tagName) (0, id)

section

variable {cfg : Config} {c : Container}

theorem takes_iff (c : Container) (preferredId : TagId) :
    ((preferredId.major ≠ 0 ∨ preferredId.minor ≠ 0) ∧ ¬c.tagIdToInfo.contains preferredId) ↔
      preferredId ≠ UniqueId.null ∧ c.tagMaps.infos preferredId = none := by
  refine and_congr ?_ ?_
  · obtain ⟨major, minor⟩ := preferredId
    simp only [UniqueId.null, ne_eq, UniqueId.mk.injEq]
    exact not_and_or.symm
  · show _ ↔ Option.map _ _ = none
    rw [Option.map_eq_none_iff, AMap.contains_iff, AMap.find?_eq_none_iff, not_exists]

theorem wp_getOrCreateTag_reply (tagName : Bytes) (preferredId : TagId) :
    Wp (fun m c => c.tagMaps = m) (fun _ _ => True)
      (Task.reply cfg (.getOrCreateTag tagName preferredId))
      (fun r m c' => Outcome cfg.nodeId m c' (.getOrCreateTag tagName preferredId) r)
      c.tagMaps c := by
  simp only [Task.reply, bind_eq, pure_eq, wp_bind, wp_ret, getOrCreateTag]
  by_cases hremote : isRemoteTag cfg preferredId = true
  · rw [if_pos hremote]
    simp only [isRemoteTag, Bool.and_eq_true, decide_eq_true_eq] at hremote
    simp only [wp_bind, wp_modifyContainer, wp_ret]
    exact .remote hremote.1 hremote.2
  · rw [if_neg hremote]
    simp only [getOrAssignTagId, bind_eq, pure_eq, wp_bind, wp_readContainer]
    cases hfind : c.tagNameToId.find? tagName with
    | some tagId => exact .known hfind rfl
    | none =>
      simp only [wp_bind, wp_modifyContainer, wp_logTagTxn, wp_ret]
      intro worker
      show Outcome _ _ ((c.newTagId cfg preferredId).2.addTag worker tagName
        (c.newTagId cfg preferredId).1) _ _
      unfold Container.newTagId
      by_cases htakes : (preferredId.major ≠ 0 ∨ preferredId.minor ≠ 0) ∧
          ¬c.tagIdToInfo.contains preferredId
      · rw [if_pos htakes]
        obtain ⟨hne, hfree⟩ := (takes_iff c preferredId).mp htakes
        exact .preferred hfind hne hfree (tagMaps_addTag _ _ _ _)
      · rw [if_neg htakes]
        refine .generated hfind (fun h => htakes ((takes_iff c preferredId).mpr h)) ?_
        exact tagMaps_addTag _ _ _ _

theorem wp_delTag_reply {tagId : TagId} {tagName : Bytes}
    (hmajor : ∀ id, c.tagMaps.infos id ≠ none → id.major = cfg.nodeId) :
    Wp (fun m c => c.tagMaps = m) (fun _ _ => True) (Task.reply cfg (.delTag tagId tagName))
      (fun r m c' => Outcome cfg.nodeId m c' (.delTag tagId tagName) r) c.tagMaps c := by
  simp only [Task.reply, delTag, bind_eq, pure_eq, wp_bind, wp_readContainer]
  cases c.resolveTag tagId tagName with
  | none => exact .same rfl rfl
  | some id =>
    dsimp only
    cases hinfo : c.tagIdToInfo.find? id with
    | none => exact .same rfl rfl
    | some info =>
      have hnode : id.major = cfg.nodeId := by
        refine hmajor id ?_
        show Option.map _ _ ≠ none
        rw [hinfo]
        simp
      simp only [wp_bind, wp_modifyContainer, wp_logTagTxn, wp_ret]
      refine wp_shuffle fun entries _ => ?_
      refine (keeps_delBlobs id _).wp rfl ?_
      -- The last stretch finds the maps as they are by then.
      intro _ c' worker
      refine .deleted hnode (tagMaps_dropTag _ worker id info.tagName) ?_
      intro key (hkey : hasTagPrefix id key = true)
      show ((c'.noteRace id info.tagName).forgetTag id).blobs.find? key = none
      rw [forgetTag_blobs, AMap.find?_eq_none_iff]
      intro node hmem
      have hnot := (AMap.mem_filter.mp hmem).2
      simp [hkey] at hnot

/-- Every task ends in one of the outcomes. -/
theorem wp_reply (t : Task) (hmajor : ∀ id, c.tagMaps.infos id ≠ none → id.major = cfg.nodeId) :
    Wp (fun m c => c.tagMaps = m) (fun _ _ => True) (t.reply cfg)
      (fun r m c' => Outcome cfg.nodeId m c' t r) c.tagMaps c := by
  have hblob : ∀ {x : TaskResume UInt32}, Preserves Container.tagMaps x →
      (∀ r, TagEvent.of (t, r) = []) →
      Wp (fun m c => c.tagMaps = m) (fun _ _ => True)
        (x.bind fun rc => ret (rc, UniqueId.null))
        (fun r m c' => Outcome cfg.nodeId m c' t r) c.tagMaps c := by
    intro x hx hevent
    rw [wp_bind]
    exact hx.wp rfl fun rc c' => .same rfl (hevent _)
  cases t with
  | getOrCreateTag tagName preferredId => exact wp_getOrCreateTag_reply tagName preferredId
  | delTag tagId tagName => exact wp_delTag_reply hmajor
  | putBlob t => exact hblob (keeps_putBlob cfg t) fun _ => rfl
  | getBlob t =>
    exact hblob (preserves_bind (keeps_getBlob t) fun _ => preserves_ret _) fun _ => rfl
  | delBlob tagId blobName => exact hblob (keeps_delBlob tagId blobName) fun _ => rfl
  | reorganizeBlob t => exact hblob (keeps_reorganizeBlob cfg t) fun _ => rfl
  | flushData level =>
    exact hblob (preserves_bind (keeps_flushData cfg level) fun _ => preserves_ret _) fun _ => rfl

end

end Cte
end IowarpCore
