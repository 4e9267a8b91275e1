/-
What a restart makes of the logs, name by name and key by key.

`ReplayTransactionLogs` rebuilds whole maps.  Seen from one tag name, one tag id or one
blob key it replays a list of effects (`nameEffect`, `infoEffect`, `tagBlobEffect`,
`blobEffect`) over what the snapshot gave it, and the three `restart_…` theorems say so of
the container `restart` returns.  The records it sees are the records that were logged,
log behind log (`records_of_logFiles`).

When a record is appended to one of several logs it ends up in the middle of that list.
`appendLog_flatten` says where, and that nothing behind it conflicts with it if it was
appended in order.
-/
import IowarpCore.Lib.Replay
import IowarpCore.Proofs.Keys
import IowarpCore.Proofs.Snapshot

namespace IowarpCore
namespace Cte

open Wal (Txn TransactionLog)

/-! ### Effects of a record -/

/-- On the id of a tag name. -/
def nameEffect (name : Bytes) : Txn → Effect TagId
  | .createTag t => if t.tagName = name then .put (some ⟨t.tagMajor, t.tagMinor⟩) else .keep
  | .delTag t => if t.tagName = name then .put none else .keep
  | _ => .keep

/-- On the name of a tag id. -/
def infoEffect (id : TagId) : Txn → Effect Bytes
  | .createTag t => if (⟨t.tagMajor, t.tagMinor⟩ : TagId) = id then .put (some t.tagName) else .keep
  | .delTag t => if (⟨t.tagMajor, t.tagMinor⟩ : TagId) = id then .put none else .keep
  | _ => .keep

/-- On the blocks of a blob, of a record in a tag log. -/
def tagBlobEffect (key : Bytes) : Txn → Effect (List BlobBlock)
  | .delTag t => if hasTagPrefix ⟨t.tagMajor, t.tagMinor⟩ key then .put none else .keep
  | _ => .keep

/-- On the blocks of a blob, of a record in a blob log. -/
def blobEffect (c : Container) (key : Bytes) : Txn → Effect (List BlobBlock)
  | .createNewBlob t =>
    if compositeKey ⟨t.tagMajor, t.tagMinor⟩ t.blobName = key then .put (some []) else .keep
  | .extendBlob t =>
    if compositeKey ⟨t.tagMajor, t.tagMinor⟩ t.blobName = key then
      .change (c.nonvolatile (t.newBlocks.map ofBlockTxn))
    else .keep
  | .clearBlob t =>
    if compositeKey ⟨t.tagMajor, t.tagMinor⟩ t.blobName = key then .change [] else .keep
  | .delBlob t =>
    if compositeKey ⟨t.tagMajor, t.tagMinor⟩ t.blobName = key then .put none else .keep
  | _ => .keep

/-- An effect on one key is a lookup behind an update of that key. -/
theorem apply_putIf {K V α : Type} [DecidableEq K] {k k' : K} (g : Option V → Option α)
    (new old : Option V) :
    g (if k' = k then new else old) = (if k = k' then Effect.put (g new) else .keep).apply (g old) := by
  by_cases h : k = k'
  · rw [if_pos h, if_pos h.symm]
    rfl
  · rw [if_neg h, if_neg (Ne.symm h)]
    rfl

/-! ### One record of the replay -/

/-- The name of the tag an id belongs to. -/
def Container.tagName? (c : Container) (id : TagId) : Option Bytes :=
  (c.tagIdToInfo.find? id).map TagInfo.tagName

theorem replayTagTxn_name (st : Container × UInt32) (t : Txn) (name : Bytes) :
    (replayTagTxn st t).1.tagNameToId.find? name =
      (nameEffect name t).apply (st.1.tagNameToId.find? name) := by
  cases t with
  | createTag t =>
    show (st.1.tagNameToId.insertOrAssign t.tagName ⟨t.tagMajor, t.tagMinor⟩).find? name = _
    rw [AMap.find?_insertOrAssign, nameEffect]
    exact apply_putIf id _ _
  | delTag t =>
    show (st.1.tagNameToId.erase t.tagName).find? name = _
    rw [AMap.find?_erase, nameEffect]
    exact apply_putIf id _ _
  | createNewBlob t => rfl
  | extendBlob t => rfl
  | clearBlob t => rfl
  | delBlob t => rfl

theorem replayTagTxn_info (st : Container × UInt32) (t : Txn) (id : TagId) :
    (replayTagTxn st t).1.tagName? id = (infoEffect id t).apply (st.1.tagName? id) := by
  cases t with
  | createTag t =>
    show ((st.1.tagIdToInfo.insertOrAssign ⟨t.tagMajor, t.tagMinor⟩ _).find? id).map _ = _
    rw [AMap.find?_insertOrAssign, infoEffect]
    exact apply_putIf (Option.map TagInfo.tagName) _ _
  | delTag t =>
    show ((st.1.tagIdToInfo.erase ⟨t.tagMajor, t.tagMinor⟩).find? id).map _ = _
    rw [AMap.find?_erase, infoEffect]
    exact apply_putIf (Option.map TagInfo.tagName) _ _
  | createNewBlob t => rfl
  | extendBlob t => rfl
  | clearBlob t => rfl
  | delBlob t => rfl

theorem find?_filter_key {m : AMap Bytes BlobNode} {p : Bytes → Bool} {key : Bytes} :
    (m.filter fun k _ => p k).find? key = if p key then m.find? key else none := by
  by_cases h : p key = true
  · rw [if_pos h]
    refine AMap.find?_congr fun v => ?_
    rw [AMap.mem_filter, h]
    simp
  · rw [if_neg h, AMap.find?_eq_none_iff]
    intro v hv
    exact h (AMap.mem_filter.mp hv).2

theorem replayTagTxn_blocks (st : Container × UInt32) (t : Txn) (key : Bytes) :
    (replayTagTxn st t).1.blocks? key = (tagBlobEffect key t).apply (st.1.blocks? key) := by
  cases t with
  | createTag t => rfl
  | delTag t =>
    show ((st.1.blobs.filter fun k _ => !hasTagPrefix ⟨t.tagMajor, t.tagMinor⟩ k).find? key).map _ =
      _
    rw [find?_filter_key, tagBlobEffect]
    by_cases h : hasTagPrefix ⟨t.tagMajor, t.tagMinor⟩ key = true
    · rw [if_pos h, h]
      rfl
    · rw [if_neg h]
      have h' : hasTagPrefix ⟨t.tagMajor, t.tagMinor⟩ key = false := by simpa using h
      rw [h']
      rfl
  | createNewBlob t => rfl
  | extendBlob t => rfl
  | clearBlob t => rfl
  | delBlob t => rfl

theorem replayTagTxn_frame (st : Container × UInt32) (t : Txn) :
    (replayTagTxn st t).1 =
      { st.1 with
        tagNameToId := (replayTagTxn st t).1.tagNameToId
        tagIdToInfo := (replayTagTxn st t).1.tagIdToInfo
        blobs := (replayTagTxn st t).1.blobs } := by
  cases t <;> rfl

theorem blocks?_mapBlob (c : Container) (key key' : Bytes) (f : BlobInfo → BlobInfo)
    (bs : List BlobBlock) (hf : ∀ info, (f info).blocks = bs) :
    (c.mapBlob key f).blocks? key' =
      (if key = key' then Effect.change bs else .keep).apply (c.blocks? key') := by
  unfold Container.mapBlob Container.blocks?
  rw [AMap.find?_mapVal]
  by_cases h : key = key'
  · rw [if_pos h]
    cases c.blobs.find? key' with
    | none => rfl
    | some node =>
      show some (if key' = key then _ else _ : BlobNode).info.blocks = some bs
      rw [if_pos h.symm, hf]
  · rw [if_neg h]
    cases c.blobs.find? key' with
    | none => rfl
    | some node =>
      show some (if key' = key then _ else _ : BlobNode).info.blocks = some node.info.blocks
      rw [if_neg (Ne.symm h)]

theorem replayBlobTxn_frame (c : Container) (t : Txn) :
    replayBlobTxn c t =
      { c with blobs := (replayBlobTxn c t).blobs, nextAddr := (replayBlobTxn c t).nextAddr } := by
  cases t with
  | createNewBlob t => exact assignBlob_frame _ _ _
  | extendBlob t => rfl
  | clearBlob t => rfl
  | delBlob t => rfl
  | createTag t => rfl
  | delTag t => rfl

theorem replayBlobTxn_blocks (c : Container) (t : Txn) (key : Bytes) :
    (replayBlobTxn c t).blocks? key = (blobEffect c key t).apply (c.blocks? key) := by
  cases t with
  | createNewBlob t =>
    obtain ⟨addr, hfind⟩ := assignBlob_find? c (compositeKey ⟨t.tagMajor, t.tagMinor⟩ t.blobName)
      key { (default : BlobInfo) with blobName := t.blobName, score := t.score }
    show ((c.assignBlob _ _).2.blobs.find? key).map _ = _
    rw [hfind, blobEffect]
    exact apply_putIf (Option.map fun node : BlobNode => node.info.blocks) _ _
  | extendBlob t => exact blocks?_mapBlob c _ key _ _ fun _ => rfl
  | clearBlob t => exact blocks?_mapBlob c _ key _ _ fun _ => rfl
  | delBlob t =>
    show ((c.blobs.erase _).find? key).map _ = _
    rw [AMap.find?_erase, blobEffect]
    exact apply_putIf (Option.map fun node : BlobNode => node.info.blocks) _ _
  | createTag t => rfl
  | delTag t => rfl

/-! ### The whole replay -/

theorem foldl_replayTagTxn_frame (log : List Txn) : ∀ st : Container × UInt32,
    (log.foldl replayTagTxn st).1 =
      { st.1 with
        tagNameToId := (log.foldl replayTagTxn st).1.tagNameToId
        tagIdToInfo := (log.foldl replayTagTxn st).1.tagIdToInfo
        blobs := (log.foldl replayTagTxn st).1.blobs } := by
  induction log with
  | nil =>
    intro st
    rfl
  | cons t log ih =>
    intro st
    have h := replayTagTxn_frame st t
    rw [List.foldl_cons, ih]
    rw [h]

theorem foldl_replayTagTxn (log : List Txn) : ∀ st : Container × UInt32,
    (∀ name, (log.foldl replayTagTxn st).1.tagNameToId.find? name =
      replayed (nameEffect name) log (st.1.tagNameToId.find? name)) ∧
    (∀ id, (log.foldl replayTagTxn st).1.tagName? id =
      replayed (infoEffect id) log (st.1.tagName? id)) ∧
    (∀ key, (log.foldl replayTagTxn st).1.blocks? key =
      replayed (tagBlobEffect key) log (st.1.blocks? key)) := by
  induction log with
  | nil =>
    intro st
    exact ⟨fun _ => rfl, fun _ => rfl, fun _ => rfl⟩
  | cons t log ih =>
    intro st
    obtain ⟨hname, hinfo, hblocks⟩ := ih (replayTagTxn st t)
    simp only [List.foldl_cons, replayed_cons]
    refine ⟨?_, ?_, ?_⟩
    · intro name
      rw [hname, replayTagTxn_name]
    · intro id
      rw [hinfo, replayTagTxn_info]
    · intro key
      rw [hblocks, replayTagTxn_blocks]

theorem blobEffect_congr {c c' : Container} (h : c'.targets = c.targets) (key : Bytes) :
    blobEffect c' key = blobEffect c key := by
  funext t
  cases t with
  | extendBlob t => simp only [blobEffect, nonvolatile_congr h]
  | createNewBlob t => rfl
  | clearBlob t => rfl
  | delBlob t => rfl
  | createTag t => rfl
  | delTag t => rfl

theorem foldl_replayBlobTxn_frame (log : List Txn) : ∀ c : Container,
    log.foldl replayBlobTxn c =
      { c with
        blobs := (log.foldl replayBlobTxn c).blobs
        nextAddr := (log.foldl replayBlobTxn c).nextAddr } := by
  induction log with
  | nil =>
    intro c
    rfl
  | cons t log ih =>
    intro c
    have h := replayBlobTxn_frame c t
    rw [List.foldl_cons, ih]
    rw [h]

theorem foldl_replayBlobTxn (log : List Txn) (key : Bytes) : ∀ c : Container,
    (log.foldl replayBlobTxn c).blocks? key = replayed (blobEffect c key) log (c.blocks? key) := by
  induction log with
  | nil =>
    intro c
    rfl
  | cons t log ih =>
    intro c
    have htargets : (replayBlobTxn c t).targets = c.targets := by rw [replayBlobTxn_frame]
    rw [List.foldl_cons, ih, replayed_cons, replayBlobTxn_blocks, blobEffect_congr htargets]

/-! ### The records on disk -/

/-- The records of the logs have payloads that their headers can hold. -/
def RecordsFit (logs : List (List Txn)) : Prop :=
  ∀ t ∈ logs.flatten, t.payload.length < 2 ^ 32

variable {logs : List (List Txn)} {t : Txn}

theorem records_of_logFiles (h : RecordsFit logs) :
    (logFiles logs).flatMap logRecords = logs.flatten := by
  induction logs with
  | nil => rfl
  | cons log logs ih =>
    have hlog : ∀ t ∈ log, t.payload.length < 2 ^ 32 := by
      intro t ht
      exact h t (by rw [List.flatten_cons]; exact List.mem_append_left _ ht)
    have hrest : RecordsFit logs := by
      intro t ht
      exact h t (by rw [List.flatten_cons]; exact List.mem_append_right _ ht)
    have hfirst : logRecords ((TransactionLog.openLog none).logAll log) = log := by
      rw [logRecords, Wal.load_of_logAll log hlog, List.filterMap_map]
      refine (List.filterMap_congr ?_).trans List.filterMap_some
      intro t ht
      exact Wal.deserialize_payload t (hlog t ht)
    show logRecords _ ++ (logFiles logs).flatMap logRecords = _
    rw [hfirst, ih hrest, List.flatten_cons]

/-! ### Restart -/

/-- What the snapshot alone restores. -/
def Container.restored (c : Container) (snapshot : Option Bytes) : Container :=
  snapshot.elim c.startAgain (restoreMetadataFromLog c.startAgain)

theorem recomputeTotals_frame (c : Container) (id : TagId) :
    c.recomputeTotals.tagName? id = c.tagName? id := by
  unfold Container.recomputeTotals Container.tagName?
  rw [AMap.find?_mapVal, Option.map_map]
  rfl

section

variable {c : Container} {snapshot : Option Bytes} (htags : RecordsFit c.tagTxnLogs)
  (hblobs : RecordsFit c.blobTxnLogs) (hlevels : (c.restored snapshot).targets = c.targets)

include htags hblobs

theorem restart_eq : c.restart snapshot =
    ((c.blobTxnLogs.flatten.foldl replayBlobTxn
      (c.tagTxnLogs.flatten.foldl replayTagTxn
        (c.restored snapshot, (c.restored snapshot).nextTagIdMinor)).1).recomputeTotals).raiseMinor
      (c.tagTxnLogs.flatten.foldl replayTagTxn
        (c.restored snapshot, (c.restored snapshot).nextTagIdMinor)).2 := by
  unfold Container.restart replayTransactionLogs
  rw [records_of_logFiles htags, records_of_logFiles hblobs]
  rfl

theorem restart_name (name : Bytes) : (c.restart snapshot).tagNameToId.find? name =
    replayed (nameEffect name) c.tagTxnLogs.flatten
      ((c.restored snapshot).tagNameToId.find? name) := by
  rw [restart_eq htags hblobs, raiseMinor_tagNameToId]
  show (c.blobTxnLogs.flatten.foldl replayBlobTxn _).tagNameToId.find? name = _
  rw [foldl_replayBlobTxn_frame, (foldl_replayTagTxn _ _).1]

theorem restart_info (id : TagId) : (c.restart snapshot).tagName? id =
    replayed (infoEffect id) c.tagTxnLogs.flatten ((c.restored snapshot).tagName? id) := by
  rw [restart_eq htags hblobs, Container.tagName?, raiseMinor_tagIdToInfo]
  show Container.tagName? (Container.recomputeTotals _) id = _
  rw [recomputeTotals_frame, Container.tagName?, foldl_replayBlobTxn_frame]
  exact (foldl_replayTagTxn _ _).2.1 id

include hlevels in
theorem restart_blocks (key : Bytes) : (c.restart snapshot).blocks? key =
    replayed (blobEffect c key) c.blobTxnLogs.flatten
      (replayed (tagBlobEffect key) c.tagTxnLogs.flatten ((c.restored snapshot).blocks? key)) := by
  obtain ⟨_, _, hblocks⟩ := foldl_replayTagTxn c.tagTxnLogs.flatten
    (c.restored snapshot, (c.restored snapshot).nextTagIdMinor)
  have htargets : (c.tagTxnLogs.flatten.foldl replayTagTxn
      (c.restored snapshot, (c.restored snapshot).nextTagIdMinor)).1.targets =
        (c.restored snapshot).targets := by rw [foldl_replayTagTxn_frame]
  rw [restart_eq htags hblobs, Container.blocks?, raiseMinor_blobs]
  show (c.blobTxnLogs.flatten.foldl replayBlobTxn _).blocks? key = _
  rw [foldl_replayBlobTxn, hblocks, blobEffect_congr (htargets.trans hlevels)]

end

/-- A restarted container goes on with the logs on disk. -/
theorem restart_tagTxnLogs (c : Container) : (c.restart none).tagTxnLogs = c.tagTxnLogs := by
  unfold Container.restart replayTransactionLogs
  dsimp only
  rw [raiseMinor_frame]
  show (Container.recomputeTotals _).tagTxnLogs = _
  unfold Container.recomputeTotals
  rw [foldl_replayBlobTxn_frame, foldl_replayTagTxn_frame]
  rfl

/-! ### Appending to one of several logs -/

theorem appendLog_ne_nil {worker : Nat} :
    Container.appendLog logs worker t ≠ [] ↔ logs ≠ [] := by
  unfold Container.appendLog
  rw [← List.length_pos_iff, List.length_modify, List.length_pos_iff]

/-- The record ends up behind the log it went to; what stands behind it does not conflict
with it if it was appended in order. -/
theorem appendLog_flatten (hne : logs ≠ []) (worker : Nat) (t : Txn) :
    ∃ pre post, logs.flatten = pre ++ post ∧
      (Container.appendLog logs worker t).flatten = pre ++ t :: post ∧
      (Container.appendsInOrder logs worker t = true → ∀ t' ∈ post, t.conflicts t' = false) := by
  have hlt : worker % logs.length < logs.length := Nat.mod_lt _ (List.length_pos_iff.mpr hne)
  unfold Container.appendLog Container.appendsInOrder
  generalize worker % logs.length = i at hlt
  have hsplit : logs = logs.take i ++ logs[i] :: logs.drop (i + 1) := by
    rw [List.getElem_cons_drop, List.take_append_drop]
  refine ⟨(logs.take i).flatten ++ logs[i], (logs.drop (i + 1)).flatten, ?_, ?_, ?_⟩
  · conv_lhs => rw [hsplit]
    rw [List.flatten_append, List.flatten_cons, List.append_assoc]
  · rw [List.modify_eq_take_cons_drop hlt, List.flatten_append, List.flatten_cons]
    simp only [List.append_assoc, List.singleton_append]
  · intro hall t' ht'
    obtain ⟨log, hlog, ht'⟩ := List.mem_flatten.mp ht'
    have hnone := List.all_eq_true.mp hall log hlog
    rw [Bool.not_eq_true', List.any_eq_false] at hnone
    simpa using hnone t' ht'

theorem conflicts_of_tag {t' : Txn} {n n' : Bytes} {i i' : TagId} (h : t.tag? = some (n, i))
    (h' : t'.tag? = some (n', i')) (hsame : n = n' ∨ i = i') : t.conflicts t' = true := by
  have hblob : t.blob? = none := by
    cases t with
    | createTag t => rfl
    | delTag t => rfl
    | createNewBlob t => simp [Txn.tag?] at h
    | extendBlob t => simp [Txn.tag?] at h
    | clearBlob t => simp [Txn.tag?] at h
    | delBlob t => simp [Txn.tag?] at h
  unfold Txn.conflicts
  rw [hblob, h, h']
  simpa using hsame

theorem tag_of_nameEffect {name : Bytes} (h : nameEffect name t ≠ .keep) :
    ∃ i, t.tag? = some (name, i) := by
  cases t with
  | createTag t =>
    by_cases hn : t.tagName = name
    · exact ⟨_, by rw [Txn.tag?, hn]⟩
    · exact absurd (if_neg hn) h
  | delTag t =>
    by_cases hn : t.tagName = name
    · exact ⟨_, by rw [Txn.tag?, hn]⟩
    · exact absurd (if_neg hn) h
  | createNewBlob t => exact absurd rfl h
  | extendBlob t => exact absurd rfl h
  | clearBlob t => exact absurd rfl h
  | delBlob t => exact absurd rfl h

theorem tag_of_infoEffect {id : TagId} (h : infoEffect id t ≠ .keep) :
    ∃ n, t.tag? = some (n, id) := by
  cases t with
  | createTag t =>
    by_cases hn : (⟨t.tagMajor, t.tagMinor⟩ : TagId) = id
    · exact ⟨_, by rw [Txn.tag?, hn]⟩
    · exact absurd (if_neg hn) h
  | delTag t =>
    by_cases hn : (⟨t.tagMajor, t.tagMinor⟩ : TagId) = id
    · exact ⟨_, by rw [Txn.tag?, hn]⟩
    · exact absurd (if_neg hn) h
  | createNewBlob t => exact absurd rfl h
  | extendBlob t => exact absurd rfl h
  | clearBlob t => exact absurd rfl h
  | delBlob t => exact absurd rfl h

theorem blob_of_blobEffect {c : Container} {key : Bytes} (h : blobEffect c key t ≠ .keep) :
    ∃ x, t.blob? = some x ∧ compositeKey x.1 x.2 = key := by
  have hkey : ∀ x, t.blob? = some x → compositeKey x.1 x.2 ≠ key → blobEffect c key t = .keep := by
    intro x hx hne
    cases t with
    | createNewBlob t =>
      rw [Txn.blob?, Option.some.injEq] at hx
      subst hx
      exact if_neg hne
    | extendBlob t =>
      rw [Txn.blob?, Option.some.injEq] at hx
      subst hx
      exact if_neg hne
    | clearBlob t =>
      rw [Txn.blob?, Option.some.injEq] at hx
      subst hx
      exact if_neg hne
    | delBlob t =>
      rw [Txn.blob?, Option.some.injEq] at hx
      subst hx
      exact if_neg hne
    | createTag t => rfl
    | delTag t => rfl
  cases hblob : t.blob? with
  | none =>
    cases t with
    | createTag t => exact absurd rfl h
    | delTag t => exact absurd rfl h
    | createNewBlob t => simp [Txn.blob?] at hblob
    | extendBlob t => simp [Txn.blob?] at hblob
    | clearBlob t => simp [Txn.blob?] at hblob
    | delBlob t => simp [Txn.blob?] at hblob
  | some x =>
    refine ⟨x, rfl, ?_⟩
    by_contra hne
    exact h (hkey x hblob hne)

/-- The effect is such that records which both have one conflict. -/
def Conflicting {β : Type} (eff : Txn → Effect β) : Prop :=
  ∀ t t', eff t ≠ .keep → eff t' ≠ .keep → t.conflicts t' = true

theorem conflicting_nameEffect (name : Bytes) : Conflicting (nameEffect name) := by
  intro t t' h h'
  obtain ⟨i, hi⟩ := tag_of_nameEffect h
  obtain ⟨i', hi'⟩ := tag_of_nameEffect h'
  exact conflicts_of_tag hi hi' (Or.inl rfl)

theorem conflicting_infoEffect (id : TagId) : Conflicting (infoEffect id) := by
  intro t t' h h'
  obtain ⟨n, hn⟩ := tag_of_infoEffect h
  obtain ⟨n', hn'⟩ := tag_of_infoEffect h'
  exact conflicts_of_tag hn hn' (Or.inr rfl)

theorem conflicting_blobEffect (c : Container) (key : Bytes) : Conflicting (blobEffect c key) := by
  intro t t' h h'
  obtain ⟨x, hx, hkey⟩ := blob_of_blobEffect h
  obtain ⟨x', hx', hkey'⟩ := blob_of_blobEffect h'
  obtain ⟨htag, hname⟩ := compositeKey_inj (hkey.trans hkey'.symm)
  have hsame : x = x' := Prod.ext htag hname
  unfold Txn.conflicts
  rw [hx, hx', hsame]
  simp

/-- **A record appended in order acts last.** -/
theorem replayed_appendLog {β : Type} {eff : Txn → Effect β} (heff : Conflicting eff) (hne : logs ≠ []) {worker : Nat} (s : Option β)
    (hord : Container.appendsInOrder logs worker t = true) :
    replayed eff (Container.appendLog logs worker t).flatten s =
      (eff t).apply (replayed eff logs.flatten s) := by
  obtain ⟨pre, post, hlogs, happend, hbehind⟩ := appendLog_flatten hne worker t
  rw [happend, hlogs]
  refine replayed_insert ?_
  by_cases hkeep : eff t = .keep
  · exact Or.inl hkeep
  · right
    intro t' ht'
    by_contra hkeep'
    have hconf := heff t t' hkeep hkeep'
    rw [hbehind hord t' ht'] at hconf
    simp at hconf

end Cte
end IowarpCore
