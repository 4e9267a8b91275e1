/-
Names and ids of tags over sequences of `GetOrCreateTag`, `DelTag` and restarts.

`TagsConsistent` is what should hold: no two names share an id, and the name of a tag
leads back to its id.  `GetOrCreateTag` does not look whether the id it is about to give
out belongs to a name already.  The counter starts at 1 and knows nothing of ids that
callers asked for, so a caller that asks for the id 1.1 and a caller that asks for none
end up with the same id under two names (`shared_id`).

As long as callers of a node ask for ids that its counter has passed, the counter gives out ids
that nobody has (`newTagId_free`), and the maps stay consistent (`tags_consistent`).  For
restarts this needs to know what the logs rebuild.  That is `TagsLogged`: every tag, and
every name but those that have none behind them, ids of other nodes that were only
remembered.
-/
import IowarpCore.Proofs.Replay
import IowarpCore.Proofs.Tasks

namespace IowarpCore
namespace Cte

open Bdev (Devices)
open Wal (Txn)

variable {w w' : World Container Devices}

/-- Two names never share an id, and the name of a tag leads back to its id. -/
structure TagsConsistent (c : Container) : Prop where
  distinct : ∀ name name' id, c.tagNameToId.find? name = some id →
    c.tagNameToId.find? name' = some id → name = name'
  named : ∀ id info, c.tagIdToInfo.find? id = some info →
    c.tagNameToId.find? info.tagName = some id

/-- What the tag logs rebuild of the tag maps. -/
structure TagsLogged (c : Container) : Prop where
  names : ∀ name,
    replayed (nameEffect name) c.tagTxnLogs.flatten none = c.tagNameToId.find? name ∨
      (replayed (nameEffect name) c.tagTxnLogs.flatten none = none ∧
        ∃ id, c.tagNameToId.find? name = some id ∧ c.tagName? id = none)
  infos : ∀ id, replayed (infoEffect id) c.tagTxnLogs.flatten none = c.tagName? id

/-- The invariant of a sequence. -/
structure TagInv (c : Container) : Prop where
  consistent : TagsConsistent c
  logged : c.ordered = true → c.tagTxnLogs ≠ [] → TagsLogged c

/-- The counter is past the ids of this node that names lead to and past the ids in the logs, and
a name leads to a tag, unless it is empty or was remembered for another node. -/
structure TagCounter (cfg : Config) (c : Container) : Prop where
  past : ∀ name id, c.tagNameToId.find? name = some id → id.major = cfg.nodeId →
    id.minor < c.nextTagIdMinor
  logged : ∀ t, Txn.createTag t ∈ c.tagTxnLogs.flatten → t.tagMinor < c.nextTagIdMinor
  tagged : ∀ name id, c.tagNameToId.find? name = some id → name ≠ [] →
    isRemoteTag cfg id = false → c.tagName? id = some name

variable {cfg : Config} {id : TagId} {S : Bdev.Request → Devices → Bdev.Reply → Devices → Prop}

theorem TagsConsistent.back {c : Container} (h : TagsConsistent c) {name : Bytes}
    (hname : c.tagName? id = some name) : c.tagNameToId.find? name = some id := by
  obtain ⟨info, hinfo, hn⟩ := Option.map_eq_some_iff.mp hname
  rw [← hn]
  exact h.named id info hinfo

/-- An id that no name has is the id of no tag. -/
theorem TagsConsistent.unused {c : Container} (h : TagsConsistent c)
    (hfree : ∀ name, c.tagNameToId.find? name ≠ some id) : c.tagName? id = none := by
  cases hname : c.tagName? id with
  | none => rfl
  | some name => exact absurd (h.back hname) (hfree name)

theorem tagsConsistent_of_back {c : Container}
    (hdistinct : ∀ name name' id, c.tagNameToId.find? name = some id →
      c.tagNameToId.find? name' = some id → name = name')
    (hback : ∀ id name, c.tagName? id = some name → c.tagNameToId.find? name = some id) :
    TagsConsistent c := by
  refine ⟨hdistinct, ?_⟩
  intro id info hinfo
  refine hback id info.tagName ?_
  rw [Container.tagName?, hinfo]
  rfl

/-- A name for an id that no name has. -/
theorem TagsConsistent.distinct_insert {c : Container} (h : TagsConsistent c) {tagName : Bytes}
    {tagId : TagId} (hfree : ∀ name, c.tagNameToId.find? name ≠ some tagId) :
    ∀ name name' id, (c.tagNameToId.insertOrAssign tagName tagId).find? name = some id →
      (c.tagNameToId.insertOrAssign tagName tagId).find? name' = some id → name = name' := by
  intro name name' id hname hname'
  rw [AMap.find?_insertOrAssign] at hname hname'
  by_cases hn : name = tagName
  · by_cases hn' : name' = tagName
    · rw [hn, hn']
    · rw [if_pos hn, Option.some.injEq] at hname
      rw [if_neg hn', ← hname] at hname'
      exact absurd hname' (hfree name')
  · rw [if_neg hn] at hname
    by_cases hn' : name' = tagName
    · rw [if_pos hn', Option.some.injEq] at hname'
      rw [← hname'] at hname
      exact absurd hname (hfree name)
    · rw [if_neg hn'] at hname'
      exact h.distinct _ _ _ hname hname'

/-! ### What deleting blobs leaves alone -/

/-- The tag maps, the counter and the tag logs are as they were. -/
structure SameTags (c c' : Container) : Prop where
  names : c'.tagNameToId = c.tagNameToId
  infos : ∀ id, c'.tagName? id = c.tagName? id
  counter : c'.nextTagIdMinor = c.nextTagIdMinor
  logs : c'.tagTxnLogs = c.tagTxnLogs
  ordered : c'.ordered = true → c.ordered = true

theorem SameTags.refl (c : Container) : SameTags c c := ⟨rfl, fun _ => rfl, rfl, rfl, id⟩

theorem SameTags.trans {c c' c'' : Container} (h : SameTags c c') (h' : SameTags c' c'') :
    SameTags c c'' where
  names := h'.names.trans h.names
  infos := fun id => (h'.infos id).trans (h.infos id)
  counter := h'.counter.trans h.counter
  logs := h'.logs.trans h.logs
  ordered := fun ho => h.ordered (h'.ordered ho)

theorem tagName?_setTagTotal (c : Container) (tagId : TagId) (total : UInt64) (id : TagId) :
    (c.setTagTotal tagId total).tagName? id = c.tagName? id := by
  unfold Container.tagName? Container.setTagTotal
  rw [AMap.find?_mapVal, Option.map_map]
  congr 1
  funext info
  by_cases h : id = tagId
  · simp [h]
  · simp [h]

theorem sameTags_dropFromTagTotal (c : Container) (tagId : TagId) (blobSize : UInt64) :
    SameTags c (c.dropFromTagTotal tagId blobSize) := by
  unfold Container.dropFromTagTotal
  cases c.tagTotal? tagId with
  | none => exact SameTags.refl c
  | some total => exact ⟨rfl, fun id => tagName?_setTagTotal c tagId _ id, rfl, rfl, id⟩

theorem DelOutcome.sameTags
    {tagId : TagId} {blobName : Bytes} {rc : UInt32} (h : DelOutcome S tagId blobName w rc w') :
    SameTags w.c w'.c := by
  cases h with
  | absent _ => exact SameTags.refl _
  | @deleted node targets worker d _ _ _ _ =>
    have hdrop := sameTags_dropFromTagTotal
      ({ w.c with targets := targets }.setBlob ⟨compositeKey tagId blobName, node.addr⟩
        { node.info with blocks := [] }) tagId node.info.getTotalSize
    refine ⟨hdrop.names, hdrop.infos, hdrop.counter, hdrop.logs, ?_⟩
    intro ho
    exact hdrop.ordered (Bool.and_eq_true_iff.mp ho).1

theorem Deletes.sameTags
    {tagId : TagId} {names : List Bytes} (h : Deletes S tagId names w w') : SameTags w.c w'.c := by
  refine h.invariant (I := fun v => SameTags w.c v.c) ?_ (SameTags.refl _)
  rintro name _ v v' hv ⟨rc, hdel⟩
  exact hv.trans hdel.sameTags

theorem TagInv.of_sameTags {c c' : Container} (h : TagInv c) (hs : SameTags c c') : TagInv c' := by
  refine ⟨tagsConsistent_of_back ?_ ?_, ?_⟩
  · rw [hs.names]
    exact h.consistent.distinct
  · intro id name hname
    rw [hs.infos] at hname
    rw [hs.names]
    exact h.consistent.back hname
  · intro ho hne
    have hlog := h.logged (hs.ordered ho) (by rw [← hs.logs]; exact hne)
    refine ⟨?_, ?_⟩
    · intro name
      simp only [hs.logs, hs.names, hs.infos]
      exact hlog.names name
    · intro id
      rw [hs.logs, hs.infos]
      exact hlog.infos id

theorem TagCounter.of_sameTags {c c' : Container} (h : TagCounter cfg c) (hs : SameTags c c') :
    TagCounter cfg c' := by
  refine ⟨?_, ?_, ?_⟩
  · rw [hs.names, hs.counter]
    exact h.past
  · rw [hs.logs, hs.counter]
    exact h.logged
  · intro name id
    rw [hs.names, hs.infos]
    exact h.tagged name id

/-! ### A new tag -/

/-- The container with a new tag, its record logged. -/
def Container.addTag (c : Container) (worker : Nat) (tagName : Bytes) (tagId : TagId) : Container :=
  (c.putTag tagName tagId 0).logTag worker (.createTag ⟨tagName, tagId.major, tagId.minor⟩)

theorem mem_appendLog {logs : List (List Txn)} {worker : Nat} {t t' : Txn}
    (h : t' ∈ (Container.appendLog logs worker t).flatten) : t' ∈ logs.flatten ∨ t' = t := by
  by_cases hne : logs = []
  · simp [hne, Container.appendLog] at h
  · obtain ⟨pre, post, hlogs, happend, _⟩ := appendLog_flatten hne worker t
    rw [happend] at h
    rw [hlogs]
    simp only [List.mem_append, List.mem_cons] at h ⊢
    tauto

theorem newTagId_frame (cfg : Config) (c : Container) (preferredId : TagId) :
    ∃ n, (c.newTagId cfg preferredId).2 = { c with nextTagIdMinor := n } := by
  unfold Container.newTagId
  by_cases h : (preferredId.major ≠ 0 ∨ preferredId.minor ≠ 0) ∧
      ¬c.tagIdToInfo.contains preferredId
  · rw [if_pos h]
    exact ⟨c.nextTagIdMinor, rfl⟩
  · rw [if_neg h]
    exact ⟨c.nextTagIdMinor + 1, rfl⟩

section

variable {c : Container} {worker : Nat} {tagName : Bytes} {tagId : TagId}

theorem addTag_name (name : Bytes) : (c.addTag worker tagName tagId).tagNameToId.find? name =
    if name = tagName then some tagId else c.tagNameToId.find? name :=
  AMap.find?_insertOrAssign _ _ _ _

theorem addTag_info (id : TagId) : (c.addTag worker tagName tagId).tagName? id =
    if id = tagId then some tagName else c.tagName? id := by
  show ((c.tagIdToInfo.insertOrAssign tagId ⟨tagName, tagId, 0⟩).find? id).map _ = _
  rw [AMap.find?_insertOrAssign]
  by_cases h : id = tagId
  · rw [if_pos h, if_pos h]
    rfl
  · rw [if_neg h, if_neg h]
    rfl

theorem nameEffect_create (name : Bytes) (s : Option TagId) :
    (nameEffect name (.createTag ⟨tagName, tagId.major, tagId.minor⟩)).apply s =
      if name = tagName then some tagId else s := by
  rw [nameEffect]
  by_cases h : tagName = name
  · rw [if_pos h, if_pos h.symm]
    rfl
  · rw [if_neg h, if_neg (Ne.symm h)]
    rfl

theorem infoEffect_create (id : TagId) (s : Option Bytes) :
    (infoEffect id (.createTag ⟨tagName, tagId.major, tagId.minor⟩)).apply s =
      if id = tagId then some tagName else s := by
  show (if tagId = id then _ else _ : Effect Bytes).apply s = _
  by_cases h : tagId = id
  · rw [if_pos h, if_pos h.symm]
    rfl
  · rw [if_neg h, if_neg (Ne.symm h)]
    rfl

/-- A tag with a new name and an unused id. -/
theorem TagInv.addTag (h : TagInv c) (hnew : c.tagNameToId.find? tagName = none)
    (hfree : ∀ name, c.tagNameToId.find? name ≠ some tagId) :
    TagInv (c.addTag worker tagName tagId) := by
  have hunused := h.consistent.unused hfree
  refine ⟨tagsConsistent_of_back ?_ ?_, ?_⟩
  · exact h.consistent.distinct_insert hfree
  · intro id name hname
    rw [addTag_info] at hname
    rw [addTag_name]
    by_cases hid : id = tagId
    · rw [if_pos hid, Option.some.injEq] at hname
      rw [if_pos hname.symm, hid]
    · rw [if_neg hid] at hname
      have hback := h.consistent.back hname
      rw [if_neg, hback]
      intro hn
      rw [hn, hnew] at hback
      simp at hback
  · intro ho hne
    have hne' : c.tagTxnLogs ≠ [] := appendLog_ne_nil.mp hne
    obtain ⟨ho, hord⟩ := Bool.and_eq_true_iff.mp ho
    have hlog := h.logged ho hne'
    refine ⟨?_, ?_⟩
    · intro name
      have hreplay := replayed_appendLog (conflicting_nameEffect name) hne' none hord
      rw [nameEffect_create] at hreplay
      show replayed _ (Container.appendLog c.tagTxnLogs worker _).flatten none = _ ∨ _
      rw [addTag_name]
      by_cases hn : name = tagName
      · left
        rw [if_pos hn] at hreplay ⊢
        exact hreplay
      · rw [if_neg hn] at hreplay ⊢
        rcases hlog.names name with hsame | ⟨hnone, id, hid, hinfo⟩
        · exact Or.inl (hreplay.trans hsame)
        · refine Or.inr ⟨hreplay.trans hnone, id, hid, ?_⟩
          rw [addTag_info, if_neg, hinfo]
          intro heq
          rw [heq] at hid
          exact hfree name hid
    · intro id
      have hreplay := replayed_appendLog (conflicting_infoEffect id) hne' none hord
      rw [infoEffect_create] at hreplay
      rw [addTag_info, ← hlog.infos]
      exact hreplay

/-- The counter may have moved for the new id, and is past it. -/
theorem TagCounter.addTag {n : UInt32} (h : TagCounter cfg c) (hle : c.nextTagIdMinor ≤ n)
    (hlt : tagId.minor < n) (hfree : ∀ name, c.tagNameToId.find? name ≠ some tagId) :
    TagCounter cfg ({ c with nextTagIdMinor := n }.addTag worker tagName tagId) := by
  refine ⟨?_, ?_, ?_⟩
  · intro name id hname hmajor
    rw [addTag_name] at hname
    by_cases hn : name = tagName
    · rw [if_pos hn, Option.some.injEq] at hname
      rw [← hname]
      exact hlt
    · rw [if_neg hn] at hname
      exact UInt32.lt_of_lt_of_le (h.past name id hname hmajor) hle
  · intro t ht
    rcases mem_appendLog ht with hold | hnew
    · exact UInt32.lt_of_lt_of_le (h.logged t hold) hle
    · rw [Txn.createTag.inj hnew]
      exact hlt
  · intro name id hname hne hlocal
    rw [addTag_name] at hname
    rw [addTag_info]
    by_cases hn : name = tagName
    · rw [if_pos hn, Option.some.injEq] at hname
      rw [if_pos hname.symm, hn]
    · rw [if_neg hn] at hname
      rw [if_neg]
      · exact h.tagged name id hname hne hlocal
      · intro heq
        rw [heq] at hname
        exact hfree name hname

/-- Of the ids a tag may get, the counter has passed the preferred one, and nobody has the one it
gives out itself. -/
theorem newTagId_free {preferredId : TagId} (hcounter : TagCounter cfg c)
    (hsafe : if (preferredId.major ≠ 0 ∨ preferredId.minor ≠ 0) ∧
        ¬c.tagIdToInfo.contains preferredId then
      preferredId.minor < c.nextTagIdMinor ∧ c.tagNameToId.find? [] ≠ some preferredId
      else c.nextTagIdMinor ≠ 0xffffffff) (hlocal : isRemoteTag cfg preferredId = false) :
    (∀ name, c.tagNameToId.find? name ≠ some (c.newTagId cfg preferredId).1) ∧
      ∃ n, (c.newTagId cfg preferredId).2 = { c with nextTagIdMinor := n } ∧
        c.nextTagIdMinor ≤ n ∧ (c.newTagId cfg preferredId).1.minor < n := by
  unfold Container.newTagId
  by_cases htakes : (preferredId.major ≠ 0 ∨ preferredId.minor ≠ 0) ∧
      ¬c.tagIdToInfo.contains preferredId
  · rw [if_pos htakes] at hsafe ⊢
    refine ⟨?_, c.nextTagIdMinor, rfl, UInt32.le_refl _, hsafe.1⟩
    intro name hname
    have hnil : name ≠ [] := by
      rintro rfl
      exact hsafe.2 hname
    obtain ⟨info, hinfo, _⟩ := Option.map_eq_some_iff.mp
      (hcounter.tagged name preferredId hname hnil hlocal)
    exact htakes.2 (AMap.contains_iff.mpr ⟨info, AMap.find?_eq_some_iff.mp hinfo⟩)
  · rw [if_neg htakes] at hsafe ⊢
    have hlt : c.nextTagIdMinor < c.nextTagIdMinor + 1 := by
      have hne : (⟨cfg.nodeId, c.nextTagIdMinor⟩ : TagId).minor ≠ 0xffffffff := hsafe
      have hspec : c.nextTagIdMinor < bumpMinor c.nextTagIdMinor ⟨cfg.nodeId, c.nextTagIdMinor⟩ :=
        (bumpMinor_spec hne).2
      rwa [bumpMinor, if_pos (UInt32.le_refl _)] at hspec
    refine ⟨?_, c.nextTagIdMinor + 1, rfl, UInt32.le_of_lt hlt, hlt⟩
    intro name hname
    exact UInt32.lt_irrefl _ (hcounter.past name _ hname rfl)

end

/-- A name remembered for a tag of another node. -/
theorem TagInv.remember {c : Container} {tagName : Bytes} {tagId : TagId} (h : TagInv c)
    (hnew : c.tagNameToId.find? tagName = none)
    (hfree : ∀ name, c.tagNameToId.find? name ≠ some tagId) :
    TagInv { c with tagNameToId := c.tagNameToId.insertOrAssign tagName tagId } := by
  have hunused := h.consistent.unused hfree
  refine ⟨tagsConsistent_of_back ?_ ?_, ?_⟩
  · exact h.consistent.distinct_insert hfree
  · intro id name hname
    have hback := h.consistent.back hname
    simp only [AMap.find?_insertOrAssign]
    rw [if_neg, hback]
    intro hn
    rw [hn, hnew] at hback
    simp at hback
  · intro ho hne
    have hlog := h.logged ho hne
    refine ⟨?_, hlog.infos⟩
    intro name
    simp only [AMap.find?_insertOrAssign]
    by_cases hn : name = tagName
    · right
      have hnone := hlog.names name
      rw [hn, hnew] at hnone
      rw [if_pos hn, hn]
      refine ⟨?_, tagId, rfl, hunused⟩
      rcases hnone with hnone | ⟨hnone, _⟩
      · exact hnone
      · exact hnone
    · rw [if_neg hn]
      exact hlog.names name

theorem TagCounter.remember {c : Container} {tagName : Bytes} {tagId : TagId}
    (h : TagCounter cfg c) (hremote : isRemoteTag cfg tagId = true) :
    TagCounter cfg { c with tagNameToId := c.tagNameToId.insertOrAssign tagName tagId } := by
  have hold : ∀ name id, (c.tagNameToId.insertOrAssign tagName tagId).find? name = some id →
      isRemoteTag cfg id = false → c.tagNameToId.find? name = some id := by
    intro name id hname hlocal
    rw [AMap.find?_insertOrAssign] at hname
    by_cases hn : name = tagName
    · rw [if_pos hn, Option.some.injEq] at hname
      rw [← hname, hremote] at hlocal
      simp at hlocal
    · rwa [if_neg hn] at hname
  refine ⟨?_, h.logged, fun name id hname hne hlocal => h.tagged name id (hold name id hname hlocal)
    hne hlocal⟩
  intro name id hname hmajor
  exact h.past name id (hold name id hname (by simp [isRemoteTag, hmajor])) hmajor

/-! ### A tag deleted -/

section

variable {c : Container} {worker : Nat} {tagName : Bytes} {tagId : TagId}

theorem forgetTag_frame (c : Container) (tagId : TagId) :
    (c.forgetTag tagId).tagIdToInfo = c.tagIdToInfo ∧
      (c.forgetTag tagId).tagTxnLogs = c.tagTxnLogs ∧
      (c.forgetTag tagId).ordered = c.ordered := by
  unfold Container.forgetTag
  dsimp only
  split
  · exact ⟨rfl, rfl, rfl⟩
  · split
    · exact ⟨rfl, rfl, rfl⟩
    · exact ⟨rfl, rfl, rfl⟩

theorem nextTagIdMinor_forgetTag (c : Container) (tagId : TagId) :
    (c.forgetTag tagId).nextTagIdMinor = c.nextTagIdMinor := by
  unfold Container.forgetTag
  dsimp only
  split
  · rfl
  · split
    · rfl
    · rfl

/-- An empty name stays behind. -/
theorem dropTag_name (h : c.tagName? tagId = some tagName) (name : Bytes) :
    (c.dropTag worker tagId tagName).tagNameToId.find? name =
      if name = tagName ∧ tagName ≠ [] then none else c.tagNameToId.find? name := by
  obtain ⟨info, hinfo, hname⟩ := Option.map_eq_some_iff.mp h
  show (c.forgetTag tagId).tagNameToId.find? name = _
  unfold Container.forgetTag
  dsimp only
  rw [hinfo]
  dsimp only
  rw [hname]
  by_cases hempty : tagName.isEmpty = true
  · rw [if_pos hempty, if_neg]
    intro hne
    exact hne.2 (List.isEmpty_iff.mp hempty)
  · rw [if_neg hempty, AMap.find?_erase]
    have hne : tagName ≠ [] := by simpa using hempty
    by_cases hn : name = tagName
    · rw [if_pos hn, if_pos ⟨hn, hne⟩]
    · rw [if_neg hn, if_neg fun hand => hn hand.1]

theorem dropTag_info (id : TagId) : (c.dropTag worker tagId tagName).tagName? id =
    if id = tagId then none else c.tagName? id := by
  show (((c.forgetTag tagId).tagIdToInfo.erase tagId).find? id).map _ = _
  rw [AMap.find?_erase, (forgetTag_frame c tagId).1]
  by_cases h : id = tagId
  · rw [if_pos h, if_pos h]
    rfl
  · rw [if_neg h, if_neg h]
    rfl

theorem nameEffect_del (name : Bytes) (s : Option TagId) :
    (nameEffect name (delTagTxn tagName tagId)).apply s = if name = tagName then none else s := by
  rw [delTagTxn, nameEffect]
  by_cases h : tagName = name
  · rw [if_pos h, if_pos h.symm]
    rfl
  · rw [if_neg h, if_neg (Ne.symm h)]
    rfl

theorem infoEffect_del (id : TagId) (s : Option Bytes) :
    (infoEffect id (delTagTxn tagName tagId)).apply s = if id = tagId then none else s := by
  show (if tagId = id then _ else _ : Effect Bytes).apply s = _
  by_cases h : tagId = id
  · rw [if_pos h, if_pos h.symm]
    rfl
  · rw [if_neg h, if_neg (Ne.symm h)]
    rfl

theorem dropTag_kept (hname : c.tagName? tagId = some tagName) {name : Bytes} {id : TagId}
    (hid : (c.dropTag worker tagId tagName).tagNameToId.find? name = some id) :
    ¬(name = tagName ∧ tagName ≠ []) ∧ c.tagNameToId.find? name = some id := by
  rw [dropTag_name hname] at hid
  by_cases hgone : name = tagName ∧ tagName ≠ []
  · rw [if_pos hgone] at hid
    simp at hid
  · rw [if_neg hgone] at hid
    exact ⟨hgone, hid⟩

theorem TagCounter.dropTag (h : TagCounter cfg c) (hinv : TagInv c)
    (hname : c.tagName? tagId = some tagName) :
    TagCounter cfg (c.dropTag worker tagId tagName) := by
  have hcounter : (c.dropTag worker tagId tagName).nextTagIdMinor = c.nextTagIdMinor :=
    nextTagIdMinor_forgetTag c tagId
  refine ⟨?_, ?_, ?_⟩
  · intro name id hid hmajor
    rw [hcounter]
    exact h.past name id (dropTag_kept hname hid).2 hmajor
  · intro t ht
    rw [hcounter]
    have hold : Txn.createTag t ∈ (c.forgetTag tagId).tagTxnLogs.flatten := by
      rcases mem_appendLog ht with hold | hnew
      · exact hold
      · exact absurd hnew (by simp [delTagTxn])
    rw [(forgetTag_frame c tagId).2.1] at hold
    exact h.logged t hold
  · intro name id hid hne hlocal
    obtain ⟨hgone, hold⟩ := dropTag_kept hname hid
    rw [dropTag_info, if_neg]
    · exact h.tagged name id hold hne hlocal
    · rintro rfl
      -- Two names with the id would be one, and that one is gone.
      have heq := hinv.consistent.distinct _ _ _ hold (hinv.consistent.back hname)
      exact hgone ⟨heq, heq ▸ hne⟩

theorem TagInv.dropTag (h : TagInv c) (hname : c.tagName? tagId = some tagName) :
    TagInv (c.dropTag worker tagId tagName) := by
  have hkept : ∀ name id, (c.dropTag worker tagId tagName).tagNameToId.find? name = some id →
      c.tagNameToId.find? name = some id := fun _ _ hid => (dropTag_kept hname hid).2
  refine ⟨tagsConsistent_of_back ?_ ?_, ?_⟩
  · intro name name' id hid hid'
    exact h.consistent.distinct _ _ _ (hkept _ _ hid) (hkept _ _ hid')
  · intro id name hid
    rw [dropTag_info] at hid
    by_cases heq : id = tagId
    · rw [if_pos heq] at hid
      simp at hid
    · rw [if_neg heq] at hid
      rw [dropTag_name hname, if_neg, h.consistent.back hid]
      intro hgone
      -- Otherwise the name would lead to both ids.
      have hback := h.consistent.back hid
      rw [hgone.1, h.consistent.back hname, Option.some.injEq] at hback
      exact heq hback.symm
  · intro ho hne
    have hne' : c.tagTxnLogs ≠ [] := by
      have hlogs := appendLog_ne_nil.mp hne
      rwa [(forgetTag_frame c tagId).2.1] at hlogs
    obtain ⟨ho, hord⟩ := Bool.and_eq_true_iff.mp ho
    rw [(forgetTag_frame c tagId).2.2] at ho
    rw [(forgetTag_frame c tagId).2.1] at hord
    have hlogs : (c.dropTag worker tagId tagName).tagTxnLogs =
        Container.appendLog c.tagTxnLogs worker (delTagTxn tagName tagId) := by
      show Container.appendLog (c.forgetTag tagId).tagTxnLogs worker _ = _
      rw [(forgetTag_frame c tagId).2.1]
    have hlog := h.logged ho hne'
    refine ⟨?_, ?_⟩
    · intro name
      have hreplay := replayed_appendLog (conflicting_nameEffect name) hne' none hord
      rw [nameEffect_del] at hreplay
      rw [hlogs, hreplay, dropTag_name hname]
      by_cases hn : name = tagName
      · rw [if_pos hn]
        by_cases hempty : tagName = []
        · -- The name stays in the map, with no tag behind it.
          right
          rw [if_neg fun hand => hand.2 hempty]
          refine ⟨rfl, tagId, ?_, ?_⟩
          · rw [hn]
            exact h.consistent.back hname
          · rw [dropTag_info, if_pos rfl]
        · left
          rw [if_pos ⟨hn, hempty⟩]
      · rw [if_neg hn, if_neg fun hand => hn hand.1]
        rcases hlog.names name with hsame | ⟨hnone, id, hid, hinfo⟩
        · exact Or.inl hsame
        · refine Or.inr ⟨hnone, id, hid, ?_⟩
          rw [dropTag_info, hinfo]
          exact ite_self _
    · intro id
      have hreplay := replayed_appendLog (conflicting_infoEffect id) hne' none hord
      rw [infoEffect_del] at hreplay
      rw [hlogs, hreplay, dropTag_info, hlog.infos]

end

/-! ### A restart -/

theorem TagInv.restart {c : Container} (h : TagInv c) (ho : c.ordered = true)
    (htags : RecordsFit c.tagTxnLogs) (hblobs : RecordsFit c.blobTxnLogs) :
    TagInv (c.restart none) := by
  have hname : ∀ name, (c.restart none).tagNameToId.find? name =
      replayed (nameEffect name) c.tagTxnLogs.flatten none :=
    fun name => restart_name htags hblobs name
  have hinfo : ∀ id, (c.restart none).tagName? id =
      replayed (infoEffect id) c.tagTxnLogs.flatten none :=
    fun id => restart_info htags hblobs id
  by_cases hnil : c.tagTxnLogs = []
  · have hempty : c.tagTxnLogs.flatten = [] := by rw [hnil]; rfl
    refine ⟨tagsConsistent_of_back ?_ ?_, ?_⟩
    · intro name name' id hid
      rw [hname, hempty] at hid
      simp at hid
    · intro id name hid
      rw [hinfo, hempty] at hid
      simp at hid
    · intro _ hne
      exact absurd (by rw [restart_tagTxnLogs, hnil]) hne
  have hlog := h.logged ho hnil
  have hsub : ∀ name id, (c.restart none).tagNameToId.find? name = some id →
      c.tagNameToId.find? name = some id := by
    intro name id hid
    rw [hname] at hid
    rcases hlog.names name with hsame | ⟨hnone, _⟩
    · rw [← hsame, hid]
    · rw [hnone] at hid
      simp at hid
  refine ⟨tagsConsistent_of_back ?_ ?_, ?_⟩
  · intro name name' id hid hid'
    exact h.consistent.distinct _ _ _ (hsub _ _ hid) (hsub _ _ hid')
  · intro id name hid
    rw [hinfo, hlog.infos] at hid
    have hback := h.consistent.back hid
    rw [hname]
    rcases hlog.names name with hsame | ⟨_, id', hid', hnone⟩
    · rw [hsame, hback]
    · -- A name that is lost has no tag behind it, but this one has.
      rw [hback, Option.some.injEq] at hid'
      rw [← hid', hid] at hnone
      simp at hnone
  · intro _ _
    refine ⟨?_, ?_⟩
    · intro name
      left
      rw [restart_tagTxnLogs, hname]
    · intro id
      rw [restart_tagTxnLogs, hinfo]

/-- The counter of a replay goes past every id in the log. -/
theorem foldl_replayTagTxn_minor (log : List Txn) : ∀ st : Container × UInt32,
    (∀ t, Txn.createTag t ∈ log → t.tagMinor ≠ 0xffffffff) →
      st.2 ≤ (log.foldl replayTagTxn st).2 ∧
        ∀ t, Txn.createTag t ∈ log → t.tagMinor < (log.foldl replayTagTxn st).2 := by
  induction log with
  | nil => exact fun st _ => ⟨UInt32.le_refl _, by simp⟩
  | cons t log ih =>
    intro st h
    obtain ⟨hle, hlt⟩ := ih (replayTagTxn st t) fun t' ht' => h t' (List.mem_cons_of_mem _ ht')
    have hstep : st.2 ≤ (replayTagTxn st t).2 ∧
        ∀ t', t = Txn.createTag t' → t'.tagMinor < (replayTagTxn st t).2 := by
      cases t with
      | createTag t =>
        have hne : (⟨t.tagMajor, t.tagMinor⟩ : TagId).minor ≠ 0xffffffff := h t (by simp)
        refine ⟨(bumpMinor_spec hne).1, ?_⟩
        intro t' heq
        rw [← Txn.createTag.inj heq]
        exact (bumpMinor_spec hne).2
      | _ => exact ⟨UInt32.le_refl _, by simp⟩
    rw [List.foldl_cons]
    refine ⟨UInt32.le_trans hstep.1 hle, ?_⟩
    intro t' ht'
    rcases List.mem_cons.mp ht' with heq | hmem
    · exact UInt32.lt_of_lt_of_le (hstep.2 t' heq.symm) hle
    · exact hlt t' hmem

theorem replayed_name_mem {name : Bytes} {log : List Txn} : ∀ {s : Option TagId},
    replayed (nameEffect name) log s = some id → s = some id ∨
      ∃ t, Txn.createTag t ∈ log ∧ (⟨t.tagMajor, t.tagMinor⟩ : TagId) = id := by
  induction log with
  | nil => exact fun h => Or.inl h
  | cons t log ih =>
    intro s h
    rcases ih h with hput | ⟨t', ht', hid⟩
    · change (nameEffect name t).apply s = some id at hput
      cases t with
      | createTag t =>
        simp only [nameEffect] at hput
        by_cases hn : t.tagName = name
        · rw [if_pos hn] at hput
          exact Or.inr ⟨t, by simp, Option.some.inj hput⟩
        · rw [if_neg hn] at hput
          exact Or.inl hput
      | delTag t =>
        simp only [nameEffect] at hput
        by_cases hn : t.tagName = name
        · rw [if_pos hn] at hput
          exact absurd hput (by simp [Effect.apply])
        · rw [if_neg hn] at hput
          exact Or.inl hput
      | _ => exact Or.inl hput
    · exact Or.inr ⟨t', List.mem_cons_of_mem _ ht', hid⟩

theorem TagCounter.restart {c : Container} (h : TagCounter cfg c) (hinv : TagInv c)
    (ho : c.ordered = true) (htags : RecordsFit c.tagTxnLogs) (hblobs : RecordsFit c.blobTxnLogs) :
    TagCounter cfg (c.restart none) := by
  have hlogged : ∀ t, Txn.createTag t ∈ c.tagTxnLogs.flatten →
      t.tagMinor < (c.restart none).nextTagIdMinor := by
    intro t ht
    have hne : ∀ t, Txn.createTag t ∈ c.tagTxnLogs.flatten → t.tagMinor ≠ 0xffffffff := by
      intro t ht heq
      have hlt := UInt32.lt_iff_toNat_lt.mp (h.logged t ht)
      have hmax := c.nextTagIdMinor.toNat_lt
      rw [heq] at hlt
      simp at hlt
      omega
    rw [restart_eq htags hblobs]
    exact UInt32.lt_of_lt_of_le ((foldl_replayTagTxn_minor _ _ hne).2 t ht) (le_raiseMinor _ _)
  refine ⟨?_, ?_, ?_⟩
  · intro name id hname _
    rw [restart_name htags hblobs] at hname
    rcases replayed_name_mem hname with hnone | ⟨t, ht, rfl⟩
    · exact absurd hnone (by simp [Container.restored, Container.startAgain, AMap.empty, AMap.find?])
    · exact hlogged t ht
  · intro t ht
    rw [restart_tagTxnLogs] at ht
    exact hlogged t ht
  · intro name id hname hne hlocal
    rw [restart_name htags hblobs] at hname
    rw [restart_info htags hblobs]
    change replayed (nameEffect name) c.tagTxnLogs.flatten none = some id at hname
    change replayed (infoEffect id) c.tagTxnLogs.flatten none = some name
    have hnil : c.tagTxnLogs ≠ [] := by
      intro hnil
      rw [hnil] at hname
      simp at hname
    obtain ⟨hnames, hinfos⟩ := hinv.logged ho hnil
    rw [hinfos]
    rcases hnames name with hsame | ⟨hnone, _⟩
    · exact h.tagged name id (hsame ▸ hname) hne hlocal
    · rw [hnone] at hname
      simp at hname

/-! ### Sequences -/

inductive TagStep where
  | getOrCreateTag (tagName : Bytes) (preferredId : TagId)
  | delTag (tagId : TagId) (tagName : Bytes)
  | restart

/-- The step takes the engine from `w` to `w'`.  No snapshot is ever written here, so a
restart finds none; what devices hold after it is left open. -/
def TagStep.Takes (cfg : Config) : TagStep → World Container Devices → World Container Devices → Prop
  | getOrCreateTag tagName preferredId, w, w' =>
    Ran ServesAny cfg (.getOrCreateTag tagName preferredId) w w'
  | delTag tagId tagName, w, w' => Ran ServesAny cfg (.delTag tagId tagName) w w'
  | restart, w, w' => w'.c = w.c.restart none

/-- What a caller may ask for a new name.  An id of another node is remembered for no name yet.
An id of this node that no tag has is one the counter has passed, and not the one an empty name
was left with.  Without such an id, the counter has numbers left.  Before a restart, the records
of every tag stand in the order of the logs, and all records are of a length their headers can
hold. -/
def TagStep.Safe (cfg : Config) : TagStep → Container → Prop
  | getOrCreateTag tagName preferredId, c => c.tagNameToId.find? tagName = none →
      if isRemoteTag cfg preferredId then ∀ e ∈ c.tagNameToId.entries, e.2 ≠ preferredId
      else if (preferredId.major ≠ 0 ∨ preferredId.minor ≠ 0) ∧
          ¬c.tagIdToInfo.contains preferredId then
        preferredId.minor < c.nextTagIdMinor ∧ c.tagNameToId.find? [] ≠ some preferredId
      else c.nextTagIdMinor ≠ 0xffffffff
  | delTag _ _, _ => True
  | restart, c => c.ordered = true ∧ RecordsFit c.tagTxnLogs ∧ RecordsFit c.blobTxnLogs

theorem ne_of_entries {m : AMap Bytes TagId} (h : ∀ e ∈ m.entries, e.2 ≠ id)
    (name : Bytes) : m.find? name ≠ some id := by
  intro hfind
  exact h _ (AMap.find?_eq_some_iff.mp hfind) rfl

theorem CreateTagOutcome.tagInv {tagName : Bytes} {preferredId : TagId}
    (h : TagInv w.c) (hcounter : TagCounter cfg w.c)
    (hsafe : TagStep.Safe cfg (.getOrCreateTag tagName preferredId) w.c)
    (hout : CreateTagOutcome cfg tagName preferredId w id w') :
    TagInv w'.c ∧ TagCounter cfg w'.c := by
  cases hout with
  | known _ => exact ⟨h, hcounter⟩
  | remembered hremote hnew =>
    have hfree := hsafe hnew
    rw [if_pos hremote] at hfree
    exact ⟨h.remember hnew (ne_of_entries hfree), hcounter.remember hremote⟩
  | @created worker hlocal hnew =>
    have hask := hsafe hnew
    rw [if_neg (by simp [hlocal])] at hask
    obtain ⟨hfree, n, hn, hle, hlt⟩ := newTagId_free hcounter hask hlocal
    show TagInv ((w.c.newTagId cfg preferredId).2.addTag worker tagName _) ∧
      TagCounter cfg ((w.c.newTagId cfg preferredId).2.addTag worker tagName _)
    rw [hn]
    have hinv : TagInv { w.c with nextTagIdMinor := n } :=
      ⟨⟨h.consistent.distinct, h.consistent.named⟩,
        fun ho hne => ⟨(h.logged ho hne).names, (h.logged ho hne).infos⟩⟩
    exact ⟨hinv.addTag hnew hfree, hcounter.addTag hle hlt hfree⟩

theorem DelTagOutcome.tagInv {tagId : TagId} {tagName : Bytes} {rc : UInt32} (h : TagInv w.c)
    (hcounter : TagCounter cfg w.c) (hout : DelTagOutcome S tagId tagName w rc w') :
    TagInv w'.c ∧ TagCounter cfg w'.c := by
  cases hout with
  | absent => exact ⟨h, hcounter⟩
  | @deleted id info entries w₁ worker _ hinfo _ hdels =>
    have hsame := hdels.sameTags
    have hnoted : SameTags w.c (w₁.c.noteRace id info.tagName) :=
      hsame.trans ⟨rfl, fun _ => rfl, rfl, rfl, fun ho => ho⟩
    have hname : (w₁.c.noteRace id info.tagName).tagName? id = some info.tagName := by
      rw [hnoted.infos, Container.tagName?, hinfo]
      rfl
    have hinv := h.of_sameTags hnoted
    exact ⟨hinv.dropTag hname, (hcounter.of_sameTags hnoted).dropTag hinv hname⟩

theorem TagStep.tagInv {s : TagStep} (h : TagInv w.c) (hcounter : TagCounter cfg w.c)
    (hsafe : s.Safe cfg w.c) (hstep : s.Takes cfg w w') : TagInv w'.c ∧ TagCounter cfg w'.c := by
  cases s with
  | getOrCreateTag tagName preferredId =>
    cases ranAs_of_ran (fun _ _ _ _ hs => hs) hstep with
    | getOrCreateTag hout => exact hout.tagInv h hcounter hsafe
  | delTag tagId tagName =>
    cases ranAs_of_ran (fun _ _ _ _ hs => hs) hstep with
    | delTag hout => exact hout.tagInv h hcounter
  | restart =>
    have hc : w'.c = w.c.restart none := hstep
    rw [hc]
    exact ⟨h.restart hsafe.1 hsafe.2.1 hsafe.2.2,
      hcounter.restart h hsafe.1 hsafe.2.1 hsafe.2.2⟩

/-- The empty maps of a new container. -/
theorem tagInv_create (targets : Targets) (numLogs : Nat) :
    TagInv (Container.create targets numLogs) := by
  have hlogs : (Container.create targets numLogs).tagTxnLogs.flatten = [] := by
    simp [Container.create]
  refine ⟨⟨?_, ?_⟩, ?_⟩
  · intro name name' id hid
    simp [Container.create, AMap.empty, AMap.find?] at hid
  · intro id info hid
    simp [Container.create, AMap.empty, AMap.find?] at hid
  · intro _ _
    refine ⟨fun name => Or.inl ?_, fun id => ?_⟩
    · rw [hlogs]
      rfl
    · rw [hlogs]
      rfl

theorem tagCounter_create (targets : Targets) (numLogs : Nat) :
    TagCounter cfg (Container.create targets numLogs) := by
  refine ⟨?_, ?_, ?_⟩
  · intro name id hid
    simp [Container.create, AMap.empty, AMap.find?] at hid
  · intro t ht
    simp [Container.create] at ht
  · intro name id hid
    simp [Container.create, AMap.empty, AMap.find?] at hid

/--
**Tags keep their identity while callers stay behind the counter.**  In every state that calls of
`GetOrCreateTag`, `DelTag` and restarts lead to, names do not share ids and the name of
every tag leads back to its id, provided that no caller asked for an id of this node that the
counter had yet to give out, none for an id of another node that was remembered already, and
that the tag logs were in order at every restart.
-/
theorem tags_consistent {targets : Targets} {numLogs : Nat} {d : Devices}
    {steps : List TagStep}
    (h : Along (fun s v v' => s.Safe cfg v.c ∧ s.Takes cfg v v') steps
      ⟨Container.create targets numLogs, d⟩ w) : TagsConsistent w.c := by
  have hinv : TagInv w.c ∧ TagCounter cfg w.c := by
    refine h.invariant (I := fun v => TagInv v.c ∧ TagCounter cfg v.c) ?_
      ⟨tagInv_create targets numLogs, tagCounter_create targets numLogs⟩
    rintro s _ v v' hv ⟨hsafe, htakes⟩
    exact TagStep.tagInv hv.1 hv.2 hsafe htakes
  exact hinv.1.consistent

def tagA : Task := .getOrCreateTag [97] UniqueId.null
def tagB : Task := .getOrCreateTag [98] UniqueId.null
def delA : Task := .delTag ⟨1, 1⟩ []
def tagC : Task := .getOrCreateTag [99] ⟨1, 1⟩
def tagD : Task := .getOrCreateTag [100] ⟨2, 7⟩

/-- The last of a list of tasks. -/
theorem ran_runAll {ts ts' : List Task} {t : Task} (hts : ts' = ts ++ [t])
    (hcheck : Co.checkExec Devices.serve checkAny (t.resume smallConfig) [] []
      (runAll smallConfig ts smallEngine) = true) :
    Ran ServesAny smallConfig t (runAll smallConfig ts smallEngine)
      (runAll smallConfig ts' smallEngine) := by
  subst hts
  exact ⟨_, runs_runAll servesAny_of_check ts t smallEngine hcheck rfl⟩

/-- Two tags, one of them deleted, its id asked for again, one of another node remembered, and a
restart. -/
theorem tags_consistent_restart :
    TagsConsistent
        ((runAll smallConfig [tagA, tagB, delA, tagC, tagD] smallEngine).c.restart none) ∧
      ((runAll smallConfig [tagA, tagB, delA, tagC, tagD] smallEngine).c.restart
        none).tagNameToId.entries = [([98], ⟨1, 2⟩), ([99], ⟨1, 1⟩)] := by
  refine ⟨?_, by decide +kernel⟩
  have hrun : Along (fun s v v' => TagStep.Safe smallConfig s v.c ∧ s.Takes smallConfig v v')
      [.getOrCreateTag [97] UniqueId.null, .getOrCreateTag [98] UniqueId.null,
        .delTag ⟨1, 1⟩ [], .getOrCreateTag [99] ⟨1, 1⟩, .getOrCreateTag [100] ⟨2, 7⟩, .restart]
      ⟨Container.create smallTargets 1, smallRam⟩
      ⟨(runAll smallConfig [tagA, tagB, delA, tagC, tagD] smallEngine).c.restart none, smallRam⟩ := by
    refine ⟨runAll smallConfig [tagA] smallEngine, ⟨?_, ?_⟩,
      runAll smallConfig [tagA, tagB] smallEngine, ⟨?_, ?_⟩,
      runAll smallConfig [tagA, tagB, delA] smallEngine, ⟨trivial, ?_⟩,
      runAll smallConfig [tagA, tagB, delA, tagC] smallEngine, ⟨?_, ?_⟩,
      runAll smallConfig [tagA, tagB, delA, tagC, tagD] smallEngine, ⟨?_, ?_⟩,
      ⟨(runAll smallConfig [tagA, tagB, delA, tagC, tagD] smallEngine).c.restart none, smallRam⟩,
      ⟨⟨?_, ?_, ?_⟩, rfl⟩, rfl⟩
    · unfold TagStep.Safe
      decide +kernel
    · exact @ran_runAll [] [tagA] tagA rfl (by decide +kernel)
    · unfold TagStep.Safe
      decide +kernel
    · exact @ran_runAll [tagA] [tagA, tagB] tagB rfl (by decide +kernel)
    · exact @ran_runAll [tagA, tagB] [tagA, tagB, delA] delA rfl (by decide +kernel)
    · unfold TagStep.Safe
      decide +kernel
    · exact @ran_runAll [tagA, tagB, delA] [tagA, tagB, delA, tagC] tagC rfl (by decide +kernel)
    · unfold TagStep.Safe
      decide +kernel
    · exact @ran_runAll [tagA, tagB, delA, tagC] [tagA, tagB, delA, tagC, tagD] tagD rfl
        (by decide +kernel)
    · decide +kernel
    · unfold RecordsFit
      decide +kernel
    · unfold RecordsFit
      decide +kernel
  exact tags_consistent hrun

/-- A caller asks for the id 1.1, and the next one, who asks for none, is given it again. -/
theorem shared_id : ¬∀ steps w,
    Along (TagStep.Takes smallConfig) steps smallEngine w → TagsConsistent w.c := by
  intro h
  have hrun : Along (TagStep.Takes smallConfig)
      [.getOrCreateTag [97] ⟨1, 1⟩, .getOrCreateTag [98] UniqueId.null] smallEngine
      (runAll smallConfig [.getOrCreateTag [97] ⟨1, 1⟩, tagB] smallEngine) := by
    refine ⟨runAll smallConfig [.getOrCreateTag [97] ⟨1, 1⟩] smallEngine, ?_, _, ?_, rfl⟩
    · exact ⟨_, runs_runAll servesAny_of_check [] (.getOrCreateTag [97] ⟨1, 1⟩) smallEngine
        (by decide +kernel) rfl⟩
    · exact ⟨_, runs_runAll servesAny_of_check [.getOrCreateTag [97] ⟨1, 1⟩] tagB smallEngine
        (by decide +kernel) rfl⟩
  have hsame := (h _ _ hrun).distinct [97] [98] ⟨1, 1⟩ (by decide +kernel) (by decide +kernel)
  exact absurd hsame (by decide)

end Cte
end IowarpCore
