/-
What tasks do to names and blobs, the logs say.

`Durable` is what holds at every await of every task: replaying the logs over what the last
snapshot restores gives every tag name its id and every blob its non-volatile blocks.  It
holds because each stretch of a task that changes a name or a blob ends in the record that
says so.  `Durable.logBlob` and `Durable.logTag` are the two forms of this argument: a
change of the maps that is what the record does to every key keeps the container durable,
if the record is appended in order.

The first half makes the changes of `core_runtime.cc` one by one, the second puts them into
the tasks by the rules of the await logic.  Everything is said of containers whose flags
are down, since with a dangling pointer, a tag that changed under `DelTag` or a record out
of order there is nothing to show.
-/
import IowarpCore.Proofs.Awaits
import IowarpCore.Proofs.TagIdentity

namespace IowarpCore
namespace Cte

open Bdev (Request Reply Devices)
open Wal (Txn)
open Co

/-! ### The invariant -/

/-- The flags that say that something went wrong are down. -/
structure Intact (c : Container) : Prop where
  pointers : c.dangling = false
  tags : c.raced = false
  logs : c.ordered = true

/-- How many records the logs hold. -/
def Container.recordCount (c : Container) : Nat :=
  c.blobTxnLogs.flatten.length + c.tagTxnLogs.flatten.length

/-- What a restart has beside the logs: the ids and the blocks the snapshot restores, and
how many records the logs held when it was written, less those truncated since. -/
structure Saved where
  names : Bytes → Option TagId
  blobs : Bytes → Option (List BlobBlock)
  count : Nat

/-- What can be brought back of a blob: its non-volatile blocks. -/
def Container.kept? (c₀ c : Container) (key : Bytes) : Option (List BlobBlock) :=
  (c.blocks? key).map c₀.nonvolatile

/-- The logs lead from what was saved to what the container holds.  The persistence levels
are those of `c₀`. -/
structure Durable (c₀ : Container) (saved : Saved) (c : Container) : Prop where
  levels : SameLevels c₀.targets c.targets
  blobLogs : c.blobTxnLogs ≠ []
  tagLogs : c.tagTxnLogs ≠ []
  tags : ∀ name id, c.tagNameToId.find? name = some id ↔ c.tagName? id = some name
  named : ∀ id, c.tagName? id ≠ some []
  names : ∀ name, replayed (nameEffect name) c.tagTxnLogs.flatten (saved.names name) =
    c.tagNameToId.find? name
  blobs : ∀ key, replayed (blobEffect c₀ key) c.blobTxnLogs.flatten
    (replayed (tagBlobEffect key) c.tagTxnLogs.flatten (saved.blobs key)) = c₀.kept? c key
  counted : saved.count ≤ c.recordCount
  current : c.recordCount = saved.count →
    (∀ name, saved.names name = c.tagNameToId.find? name) ∧
      ∀ key, saved.blobs key = c₀.kept? c key

/-- The container differs in its blobs at most, and in what `Durable` does not see. -/
structure SameMeta (c c' : Container) : Prop where
  levels : SameLevels c.targets c'.targets
  blobLogs : c'.blobTxnLogs = c.blobTxnLogs
  tagLogs : c'.tagTxnLogs = c.tagTxnLogs
  names : c'.tagNameToId = c.tagNameToId
  infos : ∀ id, c'.tagName? id = c.tagName? id
  intact : Intact c' → Intact c

theorem SameMeta.refl (c : Container) : SameMeta c c :=
  ⟨SameLevels.refl _, rfl, rfl, rfl, fun _ => rfl, id⟩

theorem SameMeta.trans {c c' c'' : Container} (h : SameMeta c c') (h' : SameMeta c' c'') :
    SameMeta c c'' where
  levels := h.levels.trans h'.levels
  blobLogs := h'.blobLogs.trans h.blobLogs
  tagLogs := h'.tagLogs.trans h.tagLogs
  names := h'.names.trans h.names
  infos := fun id => (h'.infos id).trans (h.infos id)
  intact := fun hi => h.intact (h'.intact hi)

section

variable {c₀ c c₁ : Container} {saved : Saved}

theorem Durable.of_same (h : Durable c₀ saved c) (hs : SameMeta c c₁)
    (hblobs : ∀ key, c₁.blocks? key = c.blocks? key) : Durable c₀ saved c₁ := by
  have hkept : ∀ key, c₀.kept? c₁ key = c₀.kept? c key := by
    intro key
    rw [Container.kept?, hblobs, Container.kept?]
  have hcount : c₁.recordCount = c.recordCount := by
    rw [Container.recordCount, hs.blobLogs, hs.tagLogs, Container.recordCount]
  refine ⟨h.levels.trans hs.levels, ?_, ?_, ?_, ?_, ?_, ?_, ?_, ?_⟩
  · rw [hs.blobLogs]
    exact h.blobLogs
  · rw [hs.tagLogs]
    exact h.tagLogs
  · intro name id
    rw [hs.names, hs.infos]
    exact h.tags name id
  · intro id
    rw [hs.infos]
    exact h.named id
  · intro name
    rw [hs.tagLogs, hs.names]
    exact h.names name
  · intro key
    rw [hs.blobLogs, hs.tagLogs, hkept]
    exact h.blobs key
  · rw [hcount]
    exact h.counted
  · intro hcur
    rw [hcount] at hcur
    simp only [hs.names, hkept]
    exact h.current hcur

theorem appendLog_flatten_length {logs : List (List Txn)} (hne : logs ≠ []) (worker : Nat)
    (t : Txn) : (Container.appendLog logs worker t).flatten.length = logs.flatten.length + 1 := by
  obtain ⟨pre, post, hlogs, happend, _⟩ := appendLog_flatten hne worker t
  rw [hlogs, happend]
  simp only [List.length_append, List.length_cons]
  omega

/-- **A change of blobs that its record describes.** -/
theorem Durable.logBlob (h : Durable c₀ saved c) (hs : SameMeta c c₁) {worker : Nat} {t : Txn}
    (hblobs : ∀ key, c₀.kept? c₁ key = (blobEffect c₀ key t).apply (c₀.kept? c key))
    (hi : Intact (c₁.logBlob worker t)) : Durable c₀ saved (c₁.logBlob worker t) := by
  have hord : Container.appendsInOrder c.blobTxnLogs worker t = true := by
    rw [← hs.blobLogs]
    exact (Bool.and_eq_true_iff.mp hi.logs).2
  have hlogs : (c₁.logBlob worker t).blobTxnLogs =
      Container.appendLog c.blobTxnLogs worker t := by
    rw [← hs.blobLogs]
    rfl
  have hcount : (c₁.logBlob worker t).recordCount = c.recordCount + 1 := by
    have htags : (c₁.logBlob worker t).tagTxnLogs = c.tagTxnLogs := hs.tagLogs
    rw [Container.recordCount, hlogs, htags, appendLog_flatten_length h.blobLogs,
      Container.recordCount]
    omega
  refine ⟨h.levels.trans hs.levels, ?_, ?_, ?_, ?_, ?_, ?_, ?_, ?_⟩
  · rw [hlogs, appendLog_ne_nil]
    exact h.blobLogs
  · show c₁.tagTxnLogs ≠ []
    rw [hs.tagLogs]
    exact h.tagLogs
  · intro name id
    show c₁.tagNameToId.find? name = some id ↔ c₁.tagName? id = some name
    rw [hs.names, hs.infos]
    exact h.tags name id
  · intro id
    show c₁.tagName? id ≠ some []
    rw [hs.infos]
    exact h.named id
  · intro name
    show replayed _ c₁.tagTxnLogs.flatten _ = c₁.tagNameToId.find? name
    rw [hs.tagLogs, hs.names]
    exact h.names name
  · intro key
    show replayed _ (c₁.logBlob worker t).blobTxnLogs.flatten
      (replayed _ c₁.tagTxnLogs.flatten _) = c₀.kept? c₁ key
    rw [hlogs, hs.tagLogs, replayed_appendLog (conflicting_blobEffect c₀ key) h.blobLogs _ hord,
      h.blobs, hblobs]
  · rw [hcount]
    have := h.counted
    omega
  · intro hcur
    rw [hcount] at hcur
    have := h.counted
    omega

theorem tagBlobEffect_erasing (key : Bytes) (t : Txn) :
    tagBlobEffect key t = .keep ∨ tagBlobEffect key t = .put none := by
  cases t with
  | delTag t =>
    by_cases h : hasTagPrefix ⟨t.tagMajor, t.tagMinor⟩ key = true
    · exact Or.inr (if_pos h)
    · exact Or.inl (if_neg h)
  | createTag t => exact Or.inl rfl
  | createNewBlob t => exact Or.inl rfl
  | extendBlob t => exact Or.inl rfl
  | clearBlob t => exact Or.inl rfl
  | delBlob t => exact Or.inl rfl

/-- The part of a restart that is about one blob, with a tag record more.  A record that
deletes a tag may go in where its blobs are gone already. -/
theorem replayed_blob_insert {key : Bytes} {logs pre post : List Txn} {t : Txn}
    {s : Option (List BlobBlock)}
    (hsafe : tagBlobEffect key t = .keep ∨
      replayed (blobEffect c₀ key) logs (replayed (tagBlobEffect key) (pre ++ post) s) = none) :
    replayed (blobEffect c₀ key) logs (replayed (tagBlobEffect key) (pre ++ t :: post) s) =
      replayed (blobEffect c₀ key) logs (replayed (tagBlobEffect key) (pre ++ post) s) := by
  by_cases hkeep : tagBlobEffect key t = .keep
  · rw [replayed_insert (Or.inl hkeep), hkeep]
    rfl
  · have hnone := hsafe.resolve_left hkeep
    rcases replayed_erasing (tagBlobEffect_erasing key) (pre ++ t :: post) with hall | hgone
    · exact absurd (hall t (by simp)) hkeep
    · rw [hgone, hnone]
      exact replayed_none hnone

/-- **A change of the tags that its record describes.** -/
theorem Durable.logTag (h : Durable c₀ saved c) {worker : Nat} {t : Txn}
    (hlevels : SameLevels c.targets c₁.targets) (hblobLogs : c₁.blobTxnLogs = c.blobTxnLogs)
    (htagLogs : c₁.tagTxnLogs = c.tagTxnLogs)
    (htags : ∀ name id, c₁.tagNameToId.find? name = some id ↔ c₁.tagName? id = some name)
    (hnamed : ∀ id, c₁.tagName? id ≠ some [])
    (hnames : ∀ name, c₁.tagNameToId.find? name =
      (nameEffect name t).apply (c.tagNameToId.find? name))
    (hblobs : ∀ key, c₁.blocks? key = c.blocks? key)
    (hsafe : ∀ key, tagBlobEffect key t = .keep ∨ c.blocks? key = none)
    (hi : Intact (c₁.logTag worker t)) : Durable c₀ saved (c₁.logTag worker t) := by
  have hord : Container.appendsInOrder c.tagTxnLogs worker t = true := by
    rw [← htagLogs]
    exact (Bool.and_eq_true_iff.mp hi.logs).2
  have hlogs : (c₁.logTag worker t).tagTxnLogs = Container.appendLog c.tagTxnLogs worker t := by
    rw [← htagLogs]
    rfl
  have hcount : (c₁.logTag worker t).recordCount = c.recordCount + 1 := by
    have hsame : (c₁.logTag worker t).blobTxnLogs = c.blobTxnLogs := hblobLogs
    rw [Container.recordCount, hlogs, hsame, appendLog_flatten_length h.tagLogs,
      Container.recordCount]
    omega
  refine ⟨h.levels.trans hlevels, ?_, ?_, htags, hnamed, ?_, ?_, ?_, ?_⟩
  · show c₁.blobTxnLogs ≠ []
    rw [hblobLogs]
    exact h.blobLogs
  · rw [hlogs, appendLog_ne_nil]
    exact h.tagLogs
  · intro name
    show replayed _ (c₁.logTag worker t).tagTxnLogs.flatten _ = c₁.tagNameToId.find? name
    rw [hlogs, replayed_appendLog (conflicting_nameEffect name) h.tagLogs _ hord, h.names, hnames]
  · intro key
    obtain ⟨pre, post, hpre, hpost, _⟩ := appendLog_flatten h.tagLogs worker t
    have hbefore := h.blobs key
    rw [hpre] at hbefore
    show replayed _ c₁.blobTxnLogs.flatten
      (replayed _ (c₁.logTag worker t).tagTxnLogs.flatten _) = c₀.kept? c₁ key
    rw [hblobLogs, hlogs, hpost, Container.kept?, hblobs]
    refine (replayed_blob_insert ?_).trans hbefore
    rcases hsafe key with hkeep | hgone
    · exact Or.inl hkeep
    · right
      rw [hbefore, Container.kept?, hgone]
      rfl
  · rw [hcount]
    have := h.counted
    omega
  · intro hcur
    rw [hcount] at hcur
    have := h.counted
    omega

end

/-! ### Changes and their records -/

/-- What every task leaves at its awaits. -/
def Recoverable (c₀ : Container) (saved : Saved) (c : Container) : Prop :=
  Intact c → Durable c₀ saved c

section

variable {c₀ c c₁ : Container} {saved : Saved} {ptr : BlobPtr}

theorem Recoverable.of_same (h : Recoverable c₀ saved c) (hs : SameMeta c c₁)
    (hblobs : Intact c₁ → ∀ key, c₁.blocks? key = c.blocks? key) : Recoverable c₀ saved c₁ :=
  fun hi => (h (hs.intact hi)).of_same hs (hblobs hi)

theorem blind_recoverable : Blind (Recoverable c₀ saved) where
  dangle := fun c _ hi => by simpa using hi.pointers
  turn := fun c n h => h.of_same ⟨SameLevels.refl _, rfl, rfl, rfl, fun _ => rfl,
    fun hi => ⟨hi.pointers, hi.tags, hi.logs⟩⟩ fun _ _ => rfl
  room := fun c t hlevels h => h.of_same ⟨hlevels, rfl, rfl, rfl, fun _ => rfl,
    fun hi => ⟨hi.pointers, hi.tags, hi.logs⟩⟩ fun _ _ => rfl

theorem intact_of_logBlob {worker : Nat} {t : Txn} (h : Intact (c.logBlob worker t)) : Intact c :=
  ⟨h.pointers, h.tags, (Bool.and_eq_true_iff.mp h.logs).1⟩

theorem intact_of_logTag {worker : Nat} {t : Txn} (h : Intact (c.logTag worker t)) : Intact c :=
  ⟨h.pointers, h.tags, (Bool.and_eq_true_iff.mp h.logs).1⟩

/-- Writing through a pointer, unless it dangles. -/
theorem updateBlob_of_intact {f : BlobInfo → BlobInfo} (h : Intact (c.updateBlob ptr f)) :
    ∃ info, c.PointsTo ptr info ∧ c.updateBlob ptr f = c.setBlob ptr (f info) := by
  cases hderef : c.deref? ptr with
  | none =>
    have hdangle := h.pointers
    rw [Container.updateBlob, hderef] at hdangle
    simp at hdangle
  | some info =>
    have hptr := pointsTo_of_deref? hderef
    exact ⟨info, hptr, updateBlob_of_pointsTo hptr f⟩

theorem sameMeta_updateBlob (c : Container) (ptr : BlobPtr) (f : BlobInfo → BlobInfo) :
    SameMeta c (c.updateBlob ptr f) := by
  unfold Container.updateBlob
  cases c.deref? ptr with
  | none =>
    refine ⟨SameLevels.refl _, rfl, rfl, rfl, fun _ => rfl, ?_⟩
    intro hi
    have := hi.pointers
    simp at this
  | some info =>
    exact ⟨SameLevels.refl _, rfl, rfl, rfl, fun _ => rfl,
      fun hi => ⟨hi.pointers, hi.tags, hi.logs⟩⟩

theorem blocks?_setBlob (c : Container) (ptr : BlobPtr) (info : BlobInfo) (key : Bytes) :
    (c.setBlob ptr info).blocks? key =
      if key = ptr.key then some info.blocks else c.blocks? key := by
  unfold Container.setBlob Container.blocks?
  rw [AMap.find?_insertOrAssign]
  by_cases h : key = ptr.key
  · rw [if_pos h, if_pos h]
    rfl
  · rw [if_neg h, if_neg h]

theorem blocks?_of_pointsTo {info : BlobInfo} (h : c.PointsTo ptr info) :
    c.blocks? ptr.key = some info.blocks := by
  rw [Container.blocks?, h]
  rfl

/-- The blob is emptied and logged as cleared. -/
theorem Recoverable.clear (h : Recoverable c₀ saved c) {t : PutBlobTask} (hkey : ptr.key = t.key)
    (worker : Nat) : Recoverable c₀ saved ((c.updateBlob ptr fun info =>
      { info with blocks := [] }).logBlob worker (clearTxn t)) := by
  intro hi
  have hi₁ := intact_of_logBlob hi
  obtain ⟨info, hptr, hupdate⟩ := updateBlob_of_intact hi₁
  have hs := sameMeta_updateBlob c ptr fun info => { info with blocks := [] }
  refine (h (hs.intact hi₁)).logBlob hs ?_ hi
  intro key
  rw [hupdate, Container.kept?, blocks?_setBlob]
  show _ = (if t.key = key then Effect.change [] else .keep).apply (c₀.kept? c key)
  by_cases hk : key = ptr.key
  · rw [if_pos hk, if_pos (by rw [hk, hkey]), hk, Container.kept?, blocks?_of_pointsTo hptr]
    rfl
  · rw [if_neg hk, if_neg (by rw [← hkey]; exact Ne.symm hk)]
    rfl

theorem map_ofBlockTxn (blocks : List BlobBlock) :
    (blocks.map blockTxn).map ofBlockTxn = blocks := by
  rw [List.map_map]
  exact List.map_id' blocks

/-- The blob is logged with the blocks it has, whatever it had before. -/
theorem Recoverable.logsBlocks (h : Recoverable c₀ saved c) (hs : SameMeta c c₁) {t : PutBlobTask}
    (hkey : ptr.key = t.key) (worker : Nat)
    (hothers : Intact c₁ → ∀ key, key ≠ t.key → c₁.blocks? key = c.blocks? key)
    (hblob : Intact c₁ → c₁.blocks? t.key = c.blocks? t.key ∨
      (c₁.blocks? t.key ≠ some [] ∧ (c.blocks? t.key).isSome = true)) :
    Recoverable c₀ saved (c₁.logsBlocks worker t ptr) := by
  unfold Container.logsBlocks Container.derefs
  cases hderef : c₁.deref? ptr with
  | none =>
    intro hi
    have hdangle := hi.pointers
    simp [Container.logExtend, show (default : BlobInfo).blocks = [] from rfl] at hdangle
  | some info =>
    dsimp only
    have hptr : c₁.blocks? t.key = some info.blocks := by
      rw [← hkey]
      exact blocks?_of_pointsTo (pointsTo_of_deref? hderef)
    unfold Container.logExtend
    by_cases hempty : info.blocks.isEmpty = true
    · rw [if_pos hempty]
      refine h.of_same hs fun hi₁ => ?_
      intro key
      by_cases hk : key = t.key
      · rcases hblob hi₁ with hsame | ⟨hne, _⟩
        · rw [hk, hsame]
        · rw [hptr, List.isEmpty_iff.mp hempty] at hne
          exact absurd rfl hne
      · exact hothers hi₁ key hk
    · rw [if_neg hempty]
      intro hi
      have hi₁ := intact_of_logBlob hi
      refine (h (hs.intact hi₁)).logBlob hs ?_ hi
      intro key
      show _ = (if t.key = key then
        Effect.change (c₀.nonvolatile ((info.blocks.map blockTxn).map ofBlockTxn))
          else .keep).apply (c₀.kept? c key)
      rw [map_ofBlockTxn]
      by_cases hk : key = t.key
      · have hsome : (c.blocks? key).isSome = true := by
          rw [hk]
          rcases hblob hi₁ with hsame | ⟨_, hsome⟩
          · rw [← hsame, hptr]
            rfl
          · exact hsome
        obtain ⟨blocks, hblocks⟩ := Option.isSome_iff_exists.mp hsome
        rw [if_pos hk.symm, Container.kept?, hk, hptr, ← hk, Container.kept?, hblocks]
        rfl
      · rw [if_neg (Ne.symm hk), Container.kept?, hothers hi₁ key hk]
        rfl

/-- A blob is created and logged. -/
theorem Recoverable.create (h : Recoverable c₀ saved c) {t : PutBlobTask} {blobScore : F32}
    (worker : Nat) : Recoverable c₀ saved ((c.addBlob t.key (newBlob t.blobName blobScore)).logBlob
      worker (createTxn t blobScore)) := by
  intro hi
  have hs : SameMeta c (c.addBlob t.key (newBlob t.blobName blobScore)) :=
    ⟨SameLevels.refl _, rfl, rfl, rfl, fun _ => rfl, fun hi => ⟨hi.pointers, hi.tags, hi.logs⟩⟩
  refine (h (hs.intact (intact_of_logBlob hi))).logBlob hs ?_ hi
  intro key
  show (((c.blobs.insertOrAssign t.key _).find? key).map _).map c₀.nonvolatile =
    (if t.key = key then Effect.put (some []) else .keep).apply (c₀.kept? c key)
  rw [AMap.find?_insertOrAssign]
  by_cases hk : key = t.key
  · rw [if_pos hk, if_pos hk.symm]
    rfl
  · rw [if_neg hk, if_neg (Ne.symm hk)]
    rfl

theorem sameMeta_dropFromTagTotal (c : Container) (tagId : TagId) (blobSize : UInt64) :
    SameMeta c (c.dropFromTagTotal tagId blobSize) := by
  unfold Container.dropFromTagTotal
  cases c.tagTotal? tagId with
  | none => exact SameMeta.refl c
  | some total =>
    exact ⟨SameLevels.refl _, rfl, rfl, rfl, fun id => tagName?_setTagTotal c tagId _ id,
      fun hi => ⟨hi.pointers, hi.tags, hi.logs⟩⟩

theorem sameMeta_changeTagTotal (c : Container) (tagId : TagId) (newSize oldSize : UInt64) :
    SameMeta c (c.changeTagTotal tagId newSize oldSize) := by
  unfold Container.changeTagTotal
  cases c.tagTotal? tagId with
  | none => exact SameMeta.refl c
  | some total =>
    dsimp only
    split
    · exact ⟨SameLevels.refl _, rfl, rfl, rfl, fun id => tagName?_setTagTotal c tagId _ id,
        fun hi => ⟨hi.pointers, hi.tags, hi.logs⟩⟩
    · exact ⟨SameLevels.refl _, rfl, rfl, rfl, fun id => tagName?_setTagTotal c tagId _ id,
        fun hi => ⟨hi.pointers, hi.tags, hi.logs⟩⟩

/-- A blob is emptied, erased and logged as deleted. -/
theorem Recoverable.delete (h : Recoverable c₀ saved c) (addr : Nat) (tagId : TagId)
    (blobName : Bytes) (blobSize : UInt64) (worker : Nat) :
    Recoverable c₀ saved (((c.updateBlob ⟨compositeKey tagId blobName, addr⟩ fun info =>
      { info with blocks := [] }).dropBlob tagId blobName blobSize).logBlob worker
        (delTxn tagId blobName)) := by
  intro hi
  generalize hptr : (⟨compositeKey tagId blobName, addr⟩ : BlobPtr) = ptr at *
  have hs := ((sameMeta_updateBlob c ptr fun info => { info with blocks := [] }).trans
    (sameMeta_dropFromTagTotal _ tagId blobSize))
  have hs' : SameMeta c ((c.updateBlob ptr fun info => { info with blocks := [] }).dropBlob
      tagId blobName blobSize) :=
    ⟨hs.levels, hs.blobLogs, hs.tagLogs, hs.names, hs.infos,
      fun hi => hs.intact ⟨hi.pointers, hi.tags, hi.logs⟩⟩
  have hi₁ := hs'.intact (intact_of_logBlob hi)
  refine (h hi₁).logBlob hs' ?_ hi
  intro key
  show ((((c.updateBlob ptr _).blobs.erase (compositeKey tagId blobName)).find? key).map _).map
    c₀.nonvolatile = (if compositeKey tagId blobName = key then Effect.put none else .keep).apply
      (c₀.kept? c key)
  rw [AMap.find?_erase]
  by_cases hk : key = compositeKey tagId blobName
  · rw [if_pos hk, if_pos hk.symm]
    rfl
  · rw [if_neg hk, if_neg (Ne.symm hk)]
    have hblocks : (c.updateBlob ptr fun info => { info with blocks := [] }).blocks? key =
        c.blocks? key := by
      unfold Container.updateBlob
      cases hderef : c.deref? ptr with
      | none => rfl
      | some info =>
        refine (blocks?_setBlob c ptr _ key).trans (if_neg ?_)
        rw [← hptr]
        exact hk
    show ((c.updateBlob ptr fun info => { info with blocks := [] }).blocks? key).map _ = _
    rw [hblocks]
    rfl

/-- A tag is created and logged, under a new name and an unused id. -/
theorem Recoverable.addTag (h : Recoverable c₀ saved c) {tagName : Bytes} {tagId : TagId}
    (hnew : c.tagNameToId.find? tagName = none) (hname : tagName ≠ [])
    (hfree : ∀ name, c.tagNameToId.find? name ≠ some tagId) (worker : Nat) :
    Recoverable c₀ saved (c.addTag worker tagName tagId) := by
  intro hi
  have hdur := h (by
    have hi₁ := intact_of_logTag hi
    exact ⟨hi₁.pointers, hi₁.tags, hi₁.logs⟩)
  have hnames : ∀ name, (c.putTag tagName tagId 0).tagNameToId.find? name =
      if name = tagName then some tagId else c.tagNameToId.find? name :=
    @addTag_name c worker tagName tagId
  have hinfos : ∀ id, (c.putTag tagName tagId 0).tagName? id =
      if id = tagId then some tagName else c.tagName? id :=
    @addTag_info c worker tagName tagId
  refine hdur.logTag (SameLevels.refl _) rfl rfl ?_ ?_ ?_ (fun _ => rfl) (fun _ => Or.inl rfl) hi
  · intro name id
    rw [hnames, hinfos]
    by_cases hn : name = tagName
    · by_cases hid : id = tagId
      · rw [if_pos hn, if_pos hid, hn, hid]
        simp
      · rw [if_pos hn, if_neg hid, ← hdur.tags, hn, hnew]
        simp only [Option.some.injEq, reduceCtorEq, iff_false]
        exact Ne.symm hid
    · by_cases hid : id = tagId
      · rw [if_neg hn, if_pos hid, Option.some.injEq, hid]
        exact ⟨fun h => absurd h (hfree name), fun h => absurd h.symm hn⟩
      · rw [if_neg hn, if_neg hid]
        exact hdur.tags name id
  · intro id
    rw [hinfos]
    by_cases hid : id = tagId
    · rw [if_pos hid]
      simpa using hname
    · rw [if_neg hid]
      exact hdur.named id
  · intro name
    rw [hnames, nameEffect_create]

theorem blocks?_forgetTag (c : Container) (tagId : TagId) (key : Bytes) :
    (c.forgetTag tagId).blocks? key =
      if hasTagPrefix tagId key = true then none else c.blocks? key := by
  have hblobs : (c.forgetTag tagId).blobs = c.blobs.filter fun key _ => !hasTagPrefix tagId key := by
    unfold Container.forgetTag
    dsimp only
    split
    · rfl
    · split
      · rfl
      · rfl
  rw [Container.blocks?, hblobs, find?_filter_key]
  by_cases h : hasTagPrefix tagId key = true
  · simp [h]
  · simp [h, Container.blocks?]

theorem forgetTag_meta (c : Container) (tagId : TagId) :
    (c.forgetTag tagId).targets = c.targets ∧
      (c.forgetTag tagId).blobTxnLogs = c.blobTxnLogs ∧
      (c.forgetTag tagId).dangling = c.dangling ∧ (c.forgetTag tagId).raced = c.raced := by
  unfold Container.forgetTag
  dsimp only
  split
  · exact ⟨rfl, rfl, rfl, rfl⟩
  · split
    · exact ⟨rfl, rfl, rfl, rfl⟩
    · exact ⟨rfl, rfl, rfl, rfl⟩

/-- A tag that did not change while its blobs were deleted is forgotten and logged as
deleted. -/
theorem Recoverable.dropTag (h : Recoverable c₀ saved c) (tagId : TagId) (tagName : Bytes)
    (worker : Nat) :
    Recoverable c₀ saved ((c.noteRace tagId tagName).dropTag worker tagId tagName) := by
  intro hi
  have hframe := forgetTag_frame (c.noteRace tagId tagName) tagId
  have hmeta := forgetTag_meta (c.noteRace tagId tagName) tagId
  have hi₁ : Intact (c.noteRace tagId tagName) := by
    refine ⟨?_, ?_, ?_⟩
    · rw [← hmeta.2.2.1]
      exact hi.pointers
    · rw [← hmeta.2.2.2]
      exact hi.tags
    · rw [← hframe.2.2]
      exact (Bool.and_eq_true_iff.mp hi.logs).1
  obtain ⟨hraced, hchanged⟩ := Bool.or_eq_false_iff.mp hi₁.tags
  have hdur := h ⟨hi₁.pointers, hraced, hi₁.logs⟩
  obtain ⟨hnone, hsame⟩ := Bool.or_eq_false_iff.mp hchanged
  have hname : (c.noteRace tagId tagName).tagName? tagId = some tagName := by
    rw [bne_eq_false_iff_eq] at hsame
    exact hsame
  have hgone : ∀ key, hasTagPrefix tagId key = true → c.blocks? key = none := by
    intro key hprefix
    rw [Container.blocks?, Option.map_eq_none_iff, AMap.find?_eq_none_iff]
    intro node hmem
    have := List.any_eq_false.mp hnone _ hmem
    exact this hprefix
  have hne : tagName ≠ [] := by
    intro hnil
    rw [hnil] at hname
    exact hdur.named tagId hname
  have hnames : ∀ name, ((c.noteRace tagId tagName).forgetTag tagId).tagNameToId.find? name =
      if name = tagName then none else c.tagNameToId.find? name := by
    intro name
    refine (@dropTag_name _ worker _ _ hname name).trans ?_
    by_cases hn : name = tagName
    · rw [if_pos ⟨hn, hne⟩, if_pos hn]
    · rw [if_neg fun hand => hn hand.1, if_neg hn]
      rfl
  have hinfos : ∀ id, ((c.noteRace tagId tagName).dropTag worker tagId tagName).tagName? id =
      if id = tagId then none else c.tagName? id := dropTag_info
  show Durable c₀ saved (Container.logTag { (c.noteRace tagId tagName).forgetTag tagId with
    tagIdToInfo := ((c.noteRace tagId tagName).forgetTag tagId).tagIdToInfo.erase tagId }
    worker (delTagTxn tagName tagId))
  refine hdur.logTag ?_ ?_ ?_ ?_ ?_ ?_ ?_ ?_ hi
  · rw [hmeta.1]
    exact SameLevels.refl _
  · exact hmeta.2.1
  · exact hframe.2.1
  · intro name id
    show ((c.noteRace tagId tagName).forgetTag tagId).tagNameToId.find? name = some id ↔
      ((c.noteRace tagId tagName).dropTag worker tagId tagName).tagName? id = some name
    rw [hnames, hinfos]
    by_cases hn : name = tagName
    · rw [if_pos hn]
      by_cases hid : id = tagId
      · rw [if_pos hid]
        simp
      · rw [if_neg hid, ← hdur.tags, hn, (hdur.tags tagName tagId).mpr hname]
        simp only [reduceCtorEq, Option.some.injEq, false_iff]
        exact Ne.symm hid
    · rw [if_neg hn]
      by_cases hid : id = tagId
      · rw [if_pos hid, hdur.tags, hid]
        have hname' : c.tagName? tagId = some tagName := hname
        rw [hname', Option.some.injEq]
        simp only [reduceCtorEq, iff_false]
        exact Ne.symm hn
      · rw [if_neg hid]
        exact hdur.tags name id
  · intro id
    show ((c.noteRace tagId tagName).dropTag worker tagId tagName).tagName? id ≠ some []
    rw [hinfos]
    by_cases hid : id = tagId
    · rw [if_pos hid]
      simp
    · rw [if_neg hid]
      exact hdur.named id
  · intro name
    show ((c.noteRace tagId tagName).forgetTag tagId).tagNameToId.find? name = _
    rw [hnames, nameEffect_del]
  · intro key
    show ((c.noteRace tagId tagName).forgetTag tagId).blocks? key = _
    rw [blocks?_forgetTag]
    by_cases hprefix : hasTagPrefix tagId key = true
    · rw [if_pos hprefix, hgone key hprefix]
    · rw [if_neg hprefix]
      rfl
  · intro key
    by_cases hprefix : hasTagPrefix tagId key = true
    · exact Or.inr (hgone key hprefix)
    · exact Or.inl (if_neg hprefix)

end

/-! ### Tasks -/

section

variable {c₀ c : Container} {saved : Saved} {G : Container → Container → Prop}

theorem blocks?_changeTagTotal (c : Container) (tagId : TagId) (newSize oldSize : UInt64)
    (key : Bytes) : (c.changeTagTotal tagId newSize oldSize).blocks? key = c.blocks? key := by
  unfold Container.changeTagTotal
  cases c.tagTotal? tagId with
  | none => rfl
  | some total =>
    dsimp only
    split
    · rfl
    · rfl

/-- Nothing that `putFinish` changes can be lost. -/
theorem wp_putFinish {t : PutBlobTask} {blobScore : F32} {ptr : BlobPtr} {old : UInt64}
    (h : Recoverable c₀ saved c) :
    Wp (Recoverable c₀) G (putFinish t blobScore ptr old) (fun _ => Recoverable c₀) saved c := by
  simp only [putFinish, bind_eq, wp_bind, wp_updateBlob, wp_deref, wp_modifyContainer]
  have hupdated : Recoverable c₀ saved (c.updateBlob ptr (finishedBlob t blobScore)) := by
    refine h.of_same (sameMeta_updateBlob _ _ _) fun hi key => ?_
    obtain ⟨info, hptr, hset⟩ := updateBlob_of_intact hi
    rw [hset, blocks?_setBlob]
    by_cases hk : key = ptr.key
    · rw [if_pos hk, hk, blocks?_of_pointsTo hptr]
      rfl
    · rw [if_neg hk]
  have hread : Recoverable c₀ saved ((c.updateBlob ptr (finishedBlob t blobScore)).derefs ptr).2 :=
    blind_recoverable.derefs hupdated
  exact hread.of_same (sameMeta_changeTagTotal _ _ _ _) fun _ key => blocks?_changeTagTotal _ _ _ _ _

section

variable (hG : ∀ c c', G c c' → Room c c')

include hG

theorem wp_putStore {cfg : Config} {t : PutBlobTask} {data : Nat → UInt8} {blobScore : F32}
    {ptr : BlobPtr} {old : UInt64} (hkey : ptr.key = t.key) (h : Recoverable c₀ saved c) :
    Wp (Recoverable c₀) G (putStore cfg t data blobScore ptr old)
      (fun _ => Recoverable c₀) saved c := by
  simp only [putStore, bind_eq, pure_eq, wp_bind]
  -- From the record on: the data is written and the metadata updated.
  have hrest : ∀ saved' c', Recoverable c₀ saved' c' →
      Wp (Recoverable c₀) G (deref ptr) (fun info saved c =>
        Wp (Recoverable c₀) G (modifyExistingData info.blocks data t.size t.offset)
          (fun err saved c => Wp (Recoverable c₀) G
            (if err ≠ 0 then ret (20 + err)
              else (putFinish t blobScore ptr old).bind fun _ => ret 0)
            (fun _ => Recoverable c₀) saved c) saved c) saved' c' := by
    intro saved' c' hc'
    rw [wp_deref]
    refine wp_modifyExistingData (blind_recoverable.derefs hc') fun err saved'' c'' hc'' => ?_
    by_cases herr : err ≠ 0
    · rw [if_pos herr]
      exact hc''
    · rw [if_neg herr, wp_bind]
      exact wp_putFinish hc''
  refine wp_extendBlob hG (fun _ => blind_recoverable) h ?_ ?_ ?_
  · intro err saved' c' herr hc'
    rw [if_pos herr]
    exact hc'
  · intro saved' c' hc'
    simp only [ne_eq, not_true_eq_false, if_false, wp_bind]
    refine wp_logBlocks fun worker => hrest _ _ ?_
    exact hc'.logsBlocks (SameMeta.refl c') hkey worker (fun _ _ _ => rfl) fun _ => Or.inl rfl
  · intro saved' c' new hc'
    simp only [ne_eq, not_true_eq_false, if_false, wp_bind]
    refine wp_logBlocks fun worker => hrest _ _ ?_
    refine hc'.logsBlocks (sameMeta_updateBlob _ _ _) hkey worker ?_ ?_
    · intro hi key hk
      obtain ⟨info, _, hset⟩ := updateBlob_of_intact hi
      rw [hset, blocks?_setBlob, if_neg (by rw [hkey]; exact hk)]
    · intro hi
      obtain ⟨info, hptr, hset⟩ := updateBlob_of_intact hi
      right
      rw [hset, blocks?_setBlob, if_pos hkey.symm, ← hkey, blocks?_of_pointsTo hptr]
      simp [grow]

theorem wp_putBlob {cfg : Config} {t : PutBlobTask} (h : Recoverable c₀ saved c) :
    Wp (Recoverable c₀) G (putBlob cfg t) (fun _ => Recoverable c₀) saved c := by
  unfold putBlob
  by_cases hsize : t.size = 0
  · rw [if_pos hsize]
    exact h
  rw [if_neg hsize]
  cases t.blobData with
  | none => exact h
  | some data =>
    dsimp only
    by_cases hname : t.blobName.isEmpty = true
    · rw [if_pos hname]
      exact h
    rw [if_neg hname]
    simp only [checkBlobExists, hname, Bool.false_eq_true, if_false, bind_eq, pure_eq, wp_bind,
      wp_readContainer, wp_ret]
    cases hfind : c.blobs.find? (compositeKey t.tagId t.blobName) with
    | some node =>
      rw [Option.map_some]
      refine wp_resolveScore (fun _ => blind_recoverable) h fun s c' hc' => ?_
      by_cases hbig : F32.one.lt s = true
      · rw [if_pos hbig]
        exact hc'
      rw [if_neg hbig]
      simp only [wp_bind]
      refine wp_putClear (fun _ => blind_recoverable) hc' ?_ ?_
      · intro old saved' c'' hc''
        exact wp_putStore hG rfl hc''
      · intro saved' c'' worker hc''
        exact wp_putStore hG rfl (hc''.clear rfl worker)
    | none =>
      rw [Option.map_none]
      -- Nothing happens between the lookup and the creation.
      have hscore : Wp (Recoverable c₀) G (resolveScore t.score none)
          (fun _ saved' c' => saved' = saved ∧ c' = c) saved c := by
        unfold resolveScore
        by_cases hneg : t.score.lt F32.zero = true
        · rw [if_pos hneg]
          exact ⟨rfl, rfl⟩
        · rw [if_neg hneg]
          exact ⟨rfl, rfl⟩
      refine wp_mono ?_ hscore
      rintro s saved' c' ⟨hsaved, hc'⟩
      subst hsaved
      subst hc'
      by_cases hbig : F32.one.lt s = true
      · rw [if_pos hbig]
        exact h
      rw [if_neg hbig]
      simp only [createNewBlob, hname, Bool.false_eq_true, if_false, bind_eq, pure_eq, wp_bind,
        wp_readContainer, wp_modifyContainer, wp_logBlobTxn, wp_ret]
      intro worker
      have hassign : c'.assignBlob (compositeKey t.tagId t.blobName)
          { (default : BlobInfo) with blobName := t.blobName, score := s } =
          (⟨t.key, c'.nextAddr⟩, c'.addBlob t.key (newBlob t.blobName s)) := by
        unfold Container.assignBlob
        rw [hfind]
        rfl
      rw [hassign]
      exact wp_putStore hG rfl (h.create worker)

end

theorem wp_delBlob {tagId : TagId} {blobName : Bytes} (h : Recoverable c₀ saved c) :
    Wp (Recoverable c₀) G (delBlob tagId blobName) (fun _ => Recoverable c₀) saved c := by
  unfold delBlob
  by_cases hname : blobName.isEmpty = true
  · rw [if_pos hname]
    exact h
  rw [if_neg hname]
  simp only [checkBlobExists, hname, Bool.false_eq_true, if_false, bind_eq, pure_eq, wp_bind,
    wp_readContainer, wp_ret]
  cases c.blobs.find? (compositeKey tagId blobName) with
  | none => exact h
  | some node =>
    simp only [Option.map_some, wp_bind, wp_deref, wp_modifyContainer, wp_logBlobTxn, wp_ret]
    refine wp_freeAllBlobBlocks (fun _ => blind_recoverable) (blind_recoverable.derefs h) ?_
    intro saved' c' hc' worker
    have hdel := hc'.delete node.addr tagId blobName
      (c.derefs ⟨compositeKey tagId blobName, node.addr⟩).1.getTotalSize worker
    unfold Container.dropBlob at hdel
    rw [← dropFromTagTotal_blobs _ tagId
      (c.derefs ⟨compositeKey tagId blobName, node.addr⟩).1.getTotalSize] at hdel
    exact hdel

theorem wp_delBlobs {tagId : TagId} (names : List Bytes) : ∀ {saved : Saved} {c : Container},
    Recoverable c₀ saved c →
      Wp (Recoverable c₀) G (delBlobs tagId names) (fun _ => Recoverable c₀) saved c := by
  induction names with
  | nil => exact fun h => h
  | cons name names ih =>
    intro saved c h
    simp only [delBlobs, bind_eq, wp_bind]
    exact wp_mono (fun _ _ _ h' => ih h') (wp_delBlob h)

theorem wp_delTag {tagId : TagId} {tagName : Bytes} (h : Recoverable c₀ saved c) :
    Wp (Recoverable c₀) G (delTag tagId tagName) (fun _ => Recoverable c₀) saved c := by
  simp only [delTag, bind_eq, pure_eq, wp_bind, wp_readContainer]
  cases c.resolveTag tagId tagName with
  | none => exact h
  | some id =>
    dsimp only
    cases c.tagIdToInfo.find? id with
    | none => exact h
    | some info =>
      simp only [wp_bind, wp_modifyContainer, wp_logTagTxn, wp_ret]
      refine wp_shuffle fun entries _ => ?_
      refine wp_mono ?_ (wp_delBlobs _ h)
      intro _ saved' c' hc' worker
      exact hc'.dropTag id info.tagName worker

/-- A new name is of this node, not empty, and gets an id that no name has. -/
def NewTagSafe (cfg : Config) (c : Container) (tagName : Bytes) (preferredId : TagId) : Prop :=
  c.tagNameToId.find? tagName = none → tagName ≠ [] ∧ isRemoteTag cfg preferredId = false ∧
    ∀ name, c.tagNameToId.find? name ≠ some (c.newTagId cfg preferredId).1

theorem wp_getOrCreateTag {cfg : Config} {tagName : Bytes} {preferredId : TagId}
    (h : Recoverable c₀ saved c) (hsafe : NewTagSafe cfg c tagName preferredId) :
    Wp (Recoverable c₀) G (getOrCreateTag cfg tagName preferredId)
      (fun _ => Recoverable c₀) saved c := by
  unfold getOrCreateTag
  by_cases hremote : isRemoteTag cfg preferredId = true
  · rw [if_pos hremote]
    simp only [bind_eq, pure_eq, wp_bind, wp_modifyContainer, wp_ret]
    cases hfind : c.tagNameToId.find? tagName with
    | some id => exact h
    | none =>
      have hlocal := (hsafe hfind).2.1
      rw [hlocal] at hremote
      simp at hremote
  · rw [if_neg hremote]
    simp only [getOrAssignTagId, bind_eq, pure_eq, wp_bind, wp_readContainer]
    cases hfind : c.tagNameToId.find? tagName with
    | some id => exact h
    | none =>
      obtain ⟨hne, _, hfree⟩ := hsafe hfind
      simp only [wp_bind, wp_modifyContainer, wp_logTagTxn, wp_ret]
      intro worker
      obtain ⟨n, hn⟩ := newTagId_frame cfg c preferredId
      have hsame : Recoverable c₀ saved { c with nextTagIdMinor := n } :=
        h.of_same ⟨SameLevels.refl _, rfl, rfl, rfl, fun _ => rfl,
          fun hi => ⟨hi.pointers, hi.tags, hi.logs⟩⟩ fun _ _ => rfl
      have hadded := hsame.addTag hfind hne hfree worker
      rw [← hn] at hadded
      exact hadded

end

end Cte
end IowarpCore
