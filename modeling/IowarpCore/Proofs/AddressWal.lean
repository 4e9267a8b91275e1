/-
The replay of the address table log.

A file that was written record by record, with a torn record at its end perhaps, is read as
its complete records (`replayFile_bytes`), so a replay assigns the records of all files one
after the other, in the order of the iterator.  A container ends up where the last of them
says (`mapped_applyAll`).  The time of a record is read and not looked at: the last record of
any file may come last, and is right only if it says the same as the latest one.
-/
import Mathlib.Data.List.Induction
import IowarpCore.Runtime.AddressTable

namespace IowarpCore
namespace Pools

/-! ### Records -/

theorem length_writeRecord (r : WalRecord) : (writeRecord r).length = 28 := by
  simp [writeRecord]

theorem readRecord_write (r : WalRecord) (rest : Bytes) :
    readRecord.run (writeRecord r ++ rest) = some (r, rest) := by
  simp only [readRecord, writeRecord, List.append_assoc, StateT.run_bind, readU64_write, readU32_write,
    Option.bind_eq_bind, Option.bind_some, StateT.run_pure]
  rfl

variable {bs rest : Bytes} {poolId : PoolId} {table : Table}

theorem readBytes_some {n : Nat} {got : Bytes} (h : (readBytes n).run bs = some (got, rest)) :
    bs.length = n + rest.length := by
  simp only [readBytes, StateT.run] at h
  split at h
  · rename_i hle
    cases h
    rw [List.length_drop]
    omega
  · cases h

theorem readU32_some {v : UInt32} (h : readU32.run bs = some (v, rest)) :
    bs.length = 4 + rest.length := by
  simp only [readU32, StateT.run_bind, StateT.run_pure, Option.bind_eq_bind, Option.pure_def] at h
  obtain ⟨⟨got, rest'⟩, hread, hval⟩ := Option.bind_eq_some_iff.mp h
  cases hval
  exact readBytes_some hread

theorem readU64_some {v : UInt64} (h : readU64.run bs = some (v, rest)) :
    bs.length = 8 + rest.length := by
  simp only [readU64, StateT.run_bind, StateT.run_pure, Option.bind_eq_bind, Option.pure_def] at h
  obtain ⟨⟨got, rest'⟩, hread, hval⟩ := Option.bind_eq_some_iff.mp h
  cases hval
  exact readBytes_some hread

/-- A torn record is not read. -/
theorem readRecord_torn (h : bs.length < 28) : readRecord.run bs = none := by
  refine Option.eq_none_iff_forall_ne_some.mpr fun x hx => ?_
  simp only [readRecord, StateT.run_bind, StateT.run_pure, Option.bind_eq_bind, Option.pure_def] at hx
  obtain ⟨⟨timestamp, rest⟩, htimestamp, hx⟩ := Option.bind_eq_some_iff.mp hx
  obtain ⟨⟨major, rest₁⟩, hmajor, hx⟩ := Option.bind_eq_some_iff.mp hx
  obtain ⟨⟨minor, rest₂⟩, hminor, hx⟩ := Option.bind_eq_some_iff.mp hx
  obtain ⟨⟨containerId, rest₃⟩, hcontainer, hx⟩ := Option.bind_eq_some_iff.mp hx
  obtain ⟨⟨oldNode, rest₄⟩, hold, hx⟩ := Option.bind_eq_some_iff.mp hx
  obtain ⟨⟨newNode, rest₅⟩, hnew, -⟩ := Option.bind_eq_some_iff.mp hx
  have h₀ := readU64_some htimestamp
  have h₁ := readU32_some hmajor
  have h₂ := readU32_some hminor
  have h₃ := readU32_some hcontainer
  have h₄ := readU32_some hold
  have h₅ := readU32_some hnew
  dsimp only at h₁ h₂ h₃ h₄ h₅
  omega

/-! ### Files -/

/-- A file of the log: the records of one pool that one node wrote, and a torn one. -/
structure WalFile where
  poolId : PoolId
  nodeId : UInt32
  records : List WalRecord
  own : ∀ r ∈ records, r.poolId = poolId
  torn : Bytes
  torn_short : torn.length < 28

def WalFile.bytes (f : WalFile) : Bytes :=
  f.records.flatMap writeRecord ++ f.torn

/-- A record is applied. -/
def apply (table : Table) (r : WalRecord) : Table :=
  (updateContainerNodeMapping table r.poolId r.containerId r.newNode).2

theorem replayFile_bytes {torn : Bytes} (htorn : torn.length < 28) (records : List WalRecord) {fuel : Nat}
    (hfuel : records.length < fuel) (table : Table) :
    replayFile fuel (records.flatMap writeRecord ++ torn) table = records.foldl apply table := by
  induction records generalizing fuel table with
  | nil =>
    obtain ⟨fuel, rfl⟩ := Nat.exists_eq_succ_of_ne_zero (Nat.ne_of_gt hfuel)
    rw [List.flatMap_nil, List.nil_append, replayFile, readRecord_torn htorn]
    rfl
  | cons r records ih =>
    rw [List.length_cons] at hfuel
    obtain ⟨fuel, rfl⟩ := Nat.exists_eq_succ_of_ne_zero (show fuel ≠ 0 by omega)
    rw [List.flatMap_cons, List.append_assoc, replayFile, readRecord_write]
    dsimp only
    rw [ih (by omega), List.foldl_cons]
    rfl

theorem WalFile.length_records_le (f : WalFile) : f.records.length ≤ f.bytes.length := by
  have hle : ∀ records : List WalRecord, records.length ≤ (records.flatMap writeRecord).length := by
    intro records
    induction records with
    | nil => exact Nat.zero_le _
    | cons r records ih =>
      rw [List.flatMap_cons, List.length_append, length_writeRecord, List.length_cons]
      omega
  rw [bytes, List.length_append]
  exact Nat.le_trans (hle f.records) (Nat.le_add_right _ _)

/-- The records of all files, in the order they are read. -/
def allRecords (files : List WalFile) : List WalRecord :=
  files.flatMap WalFile.records

/-- A replay applies the complete records of the files. -/
theorem replay_eq (files : List WalFile) (table : Table) :
    replayAddressTableWAL (files.map WalFile.bytes) table = (allRecords files).foldl apply table := by
  induction files generalizing table with
  | nil => rfl
  | cons f files ih =>
    have hfile : replayFile (f.bytes.length + 1) f.bytes table = f.records.foldl apply table :=
      replayFile_bytes f.torn_short f.records (Nat.lt_succ_of_le f.length_records_le) table
    rw [allRecords, List.flatMap_cons, List.foldl_append, ← hfile]
    exact ih _

/-! ### Files of a run -/

/-- The file of a pool and a node after the writes. -/
def fileOf (writes : List (UInt32 × WalRecord)) (poolId : PoolId) (nodeId : UInt32) : WalFile where
  poolId := poolId
  nodeId := nodeId
  records := (writes.filter fun write => write.2.poolId = poolId ∧ write.1 = nodeId).map Prod.snd
  own := by
    intro r hr
    obtain ⟨write, hwrite, rfl⟩ := List.mem_map.mp hr
    exact (of_decide_eq_true (List.mem_filter.mp hwrite).2).1
  torn := []
  torn_short := by decide

/-- The directory that the writes leave has the files `fileOf` says, and no others. -/
theorem find?_writeAll (writes : List (UInt32 × WalRecord)) (poolId : PoolId) (nodeId : UInt32) :
    (writes.foldl (fun dir write => writeAddressTableWAL dir write.1 write.2) AMap.empty).find?
        (poolId, nodeId) =
      if (fileOf writes poolId nodeId).records = [] then none
      else some (fileOf writes poolId nodeId).bytes := by
  have hbytes : ∀ writes, (fileOf writes poolId nodeId).bytes =
      (fileOf writes poolId nodeId).records.flatMap writeRecord :=
    fun writes => List.append_nil _
  induction writes using List.reverseRecOn with
  | nil => rfl
  | append_singleton writes write ih =>
    rw [List.foldl_append, List.foldl_cons, List.foldl_nil, writeAddressTableWAL,
      AMap.find?_insertOrAssign, hbytes]
    rw [hbytes] at ih
    by_cases hown : write.2.poolId = poolId ∧ write.1 = nodeId
    · have hrecords : (fileOf (writes ++ [write]) poolId nodeId).records =
          (fileOf writes poolId nodeId).records ++ [write.2] := by
        simp [fileOf, hown]
      obtain ⟨rfl, rfl⟩ := hown
      have hsome : (fileOf writes write.2.poolId write.1).records ++ [write.2] ≠ [] :=
        List.append_ne_nil_of_right_ne_nil _ (List.cons_ne_nil _ _)
      rw [if_pos rfl, ih, hrecords, if_neg hsome, List.flatMap_append, List.flatMap_singleton]
      by_cases hnone : (fileOf writes write.2.poolId write.1).records = []
      · rw [if_pos hnone, hnone]
        rfl
      · rw [if_neg hnone]
        rfl
    · have hrecords : (fileOf (writes ++ [write]) poolId nodeId).records =
          (fileOf writes poolId nodeId).records := by
        simp [fileOf, hown]
      rw [if_neg (fun heq => hown ⟨(Prod.mk.inj heq).1.symm, (Prod.mk.inj heq).2.symm⟩), ih,
        hrecords]

/-! ### Where the containers end up -/

/-- The node that the table has for a container. -/
def mapped (table : Table) (poolId : PoolId) (containerId : ContainerId) : Option UInt32 :=
  (table.find? poolId).bind fun info => info.addressMap.find? containerId

/-- The records of a container. -/
def recordsFor (records : List WalRecord) (poolId : PoolId) (containerId : ContainerId) :
    List WalRecord :=
  records.filter fun r => r.poolId = poolId ∧ r.containerId = containerId

theorem contains_apply (table : Table) (r : WalRecord) (poolId : PoolId) :
    (apply table r).contains poolId = table.contains poolId := by
  unfold apply updateContainerNodeMapping AMap.contains
  cases hfind : table.find? r.poolId with
  | none => rfl
  | some info =>
    refine AMap.congr_find?_insertOrAssign Option.isSome hfind ?_ poolId
    rfl

theorem mapped_apply (table : Table) (r : WalRecord) (poolId : PoolId) (containerId : ContainerId)
    (hpool : table.contains poolId = true) :
    mapped (apply table r) poolId containerId =
      if r.poolId = poolId ∧ r.containerId = containerId then some r.newNode
      else mapped table poolId containerId := by
  unfold mapped apply updateContainerNodeMapping
  by_cases hp : r.poolId = poolId
  · subst hp
    obtain ⟨info, hinfo⟩ := Option.isSome_iff_exists.mp hpool
    rw [hinfo]
    dsimp only
    rw [AMap.find?_insertOrAssign, if_pos rfl, Option.bind_some, Option.bind_some]
    dsimp only
    rw [AMap.find?_insertOrAssign]
    by_cases hc : r.containerId = containerId
    · rw [if_pos hc.symm, if_pos ⟨rfl, hc⟩]
    · rw [if_neg fun heq => hc heq.symm, if_neg fun h => hc h.2]
  · rw [if_neg fun h => hp h.1]
    cases table.find? r.poolId with
    | none => rfl
    | some info =>
      dsimp only
      rw [AMap.find?_insertOrAssign, if_neg fun heq => hp heq.symm]

/-- A container of a known pool is where its last record says. -/
theorem mapped_applyAll (records : List WalRecord) (table : Table) (poolId : PoolId)
    (containerId : ContainerId) (hpool : table.contains poolId = true) :
    mapped (records.foldl apply table) poolId containerId =
      (((recordsFor records poolId containerId).getLast?.map WalRecord.newNode).or
        (mapped table poolId containerId)) := by
  induction records generalizing table with
  | nil => rfl
  | cons r records ih =>
    rw [List.foldl_cons, ih (apply table r) (by rw [contains_apply, hpool]),
      mapped_apply table r poolId containerId hpool]
    unfold recordsFor
    by_cases hr : r.poolId = poolId ∧ r.containerId = containerId
    · rw [if_pos hr, List.filter_cons_of_pos (by simpa using hr), List.getLast?_cons]
      cases (records.filter fun r => r.poolId = poolId ∧ r.containerId = containerId).getLast? with
      | none => rfl
      | some last => rfl
    · rw [if_neg hr, List.filter_cons_of_neg (by simpa using hr)]

theorem mapped_unknown (hpool : table.contains poolId = false)
    (containerId : ContainerId) : mapped table poolId containerId = none := by
  have hnone : table.find? poolId = none := Option.isSome_eq_false_iff.mp hpool |> Option.isNone_iff_eq_none.mp
  rw [mapped, hnone]
  rfl

theorem contains_applyAll (records : List WalRecord) (table : Table) (poolId : PoolId) :
    (records.foldl apply table).contains poolId = table.contains poolId := by
  induction records generalizing table with
  | nil => rfl
  | cons r records ih => rw [List.foldl_cons, ih, contains_apply]

/-! ### The last writer -/

/-- A record that no other one is later than. -/
def IsLatest (records : List WalRecord) (r : WalRecord) : Prop :=
  r ∈ records ∧ ∀ other ∈ records, other.timestamp ≤ r.timestamp

/-- Every container of a known pool is where its latest record says, or where it was if it
has none. -/
def LastWriterWins (files : List WalFile) (table table' : Table) : Prop :=
  ∀ poolId containerId, table.contains poolId = true →
    (∀ r, IsLatest (recordsFor (allRecords files) poolId containerId) r →
      mapped table' poolId containerId = some r.newNode) ∧
    (recordsFor (allRecords files) poolId containerId = [] →
      mapped table' poolId containerId = mapped table poolId containerId)

/-- The last record of each file for a container says the same as the latest one of all. -/
def EndsAtLatest (files : List WalFile) (table : Table) : Prop :=
  ∀ poolId containerId, table.contains poolId = true →
    ∀ f ∈ files, ∀ last ∈ (recordsFor f.records poolId containerId).getLast?,
      ∀ r, IsLatest (recordsFor (allRecords files) poolId containerId) r → last.newNode = r.newNode

theorem exists_latest {records : List WalRecord} (h : records ≠ []) : ∃ r, IsLatest records r := by
  induction records with
  | nil => exact absurd rfl h
  | cons r records ih =>
    by_cases hnil : records = []
    · subst hnil
      refine ⟨r, List.mem_cons_self, fun other hother => ?_⟩
      rw [List.mem_singleton.mp hother]
      exact UInt64.le_refl _
    · obtain ⟨latest, hmem, hmax⟩ := ih hnil
      rcases UInt64.le_total latest.timestamp r.timestamp with hle | hle
      · refine ⟨r, List.mem_cons_self, fun other hother => ?_⟩
        rcases List.mem_cons.mp hother with rfl | hother
        · exact UInt64.le_refl _
        · exact UInt64.le_trans (hmax other hother) hle
      · refine ⟨latest, List.mem_cons_of_mem _ hmem, fun other hother => ?_⟩
        rcases List.mem_cons.mp hother with rfl | hother
        · exact hle
        · exact hmax other hother

theorem recordsFor_append (records records' : List WalRecord) (poolId : PoolId)
    (containerId : ContainerId) :
    recordsFor (records ++ records') poolId containerId =
      recordsFor records poolId containerId ++ recordsFor records' poolId containerId :=
  List.filter_append ..

variable {files order : List WalFile}

theorem recordsFor_perm (hperm : order.Perm files) (poolId : PoolId) (containerId : ContainerId) :
    (recordsFor (allRecords order) poolId containerId).Perm
      (recordsFor (allRecords files) poolId containerId) :=
  (hperm.flatMap_right _).filter _

/-- The last record of all is the last one of the file it is read from. -/
theorem exists_lastFile {containerId : ContainerId}
    {last : WalRecord} (h : (recordsFor (allRecords order) poolId containerId).getLast? = some last) :
    ∃ f ∈ order, (recordsFor f.records poolId containerId).getLast? = some last := by
  induction order with
  | nil => exact absurd h (by simp [allRecords, recordsFor])
  | cons f order ih =>
    rw [allRecords, List.flatMap_cons, recordsFor_append, List.getLast?_append,
      Option.or_eq_some_iff] at h
    rcases h with h | ⟨-, h⟩
    · obtain ⟨g, hg, hlast⟩ := ih h
      exact ⟨g, List.mem_cons_of_mem _ hg, hlast⟩
    · exact ⟨f, List.mem_cons_self, h⟩

/-- Where a replay in one of the orders leaves a container. -/
theorem mapped_replay (order : List WalFile) (table : Table) (poolId : PoolId)
    (containerId : ContainerId) (hpool : table.contains poolId = true) :
    mapped (replayAddressTableWAL (order.map WalFile.bytes) table) poolId containerId =
      (((recordsFor (allRecords order) poolId containerId).getLast?.map WalRecord.newNode).or
        (mapped table poolId containerId)) := by
  rw [replay_eq, mapped_applyAll _ _ _ _ hpool]

theorem lastWriterWins_of_endsAtLatest (hperm : order.Perm files) (h : EndsAtLatest files table) :
    LastWriterWins files table (replayAddressTableWAL (order.map WalFile.bytes) table) := by
  intro poolId containerId hpool
  have hrecords := recordsFor_perm hperm poolId containerId
  constructor
  · intro r hr
    have hne : recordsFor (allRecords order) poolId containerId ≠ [] :=
      List.ne_nil_of_mem (hrecords.mem_iff.mpr hr.1)
    obtain ⟨last, hlast⟩ := Option.ne_none_iff_exists'.mp (mt List.getLast?_eq_none_iff.mp hne)
    obtain ⟨f, hf, hown⟩ := exists_lastFile hlast
    rw [mapped_replay order table poolId containerId hpool, hlast]
    exact congrArg some (h poolId containerId hpool f (hperm.mem_iff.mp hf) last hown r hr)
  · intro hnil
    rw [hnil] at hrecords
    rw [mapped_replay order table poolId containerId hpool, hrecords.eq_nil]
    rfl

/-- A file can come last. -/
theorem endsAtLatest_of_lastWriterWins (h : ∀ order : List WalFile, order.Perm files →
      LastWriterWins files table (replayAddressTableWAL (order.map WalFile.bytes) table)) :
    EndsAtLatest files table := by
  intro poolId containerId hpool f hf last hlast r hr
  obtain ⟨front, back, rfl⟩ := List.append_of_mem hf
  have hperm : (front ++ back ++ [f]).Perm (front ++ f :: back) := by
    rw [List.append_assoc]
    exact (List.perm_append_singleton f back).append_left front
  have hlatest := (h _ hperm poolId containerId hpool).1 r hr
  have hown : recordsFor (allRecords (front ++ back ++ [f])) poolId containerId =
      recordsFor (allRecords (front ++ back)) poolId containerId ++
        recordsFor f.records poolId containerId := by
    rw [← recordsFor_append, allRecords, List.flatMap_append, List.flatMap_singleton]
    rfl
  rw [mapped_replay _ table poolId containerId hpool, hown, List.getLast?_append,
    Option.mem_def.mp hlast] at hlatest
  exact Option.some.inj hlatest

theorem LastWriterWins.eq {table₁ table₂ : Table}
    (h₁ : LastWriterWins files table table₁) (h₂ : LastWriterWins files table table₂) (hpool : table.contains poolId = true) (containerId : ContainerId) :
    mapped table₁ poolId containerId = mapped table₂ poolId containerId := by
  by_cases hnil : recordsFor (allRecords files) poolId containerId = []
  · rw [(h₁ poolId containerId hpool).2 hnil, (h₂ poolId containerId hpool).2 hnil]
  · obtain ⟨r, hr⟩ := exists_latest hnil
    rw [(h₁ poolId containerId hpool).1 r hr, (h₂ poolId containerId hpool).1 r hr]

/--
**A replay follows the latest records if and only if every file ends at them.**  The times are
not compared, so the order of the iterator decides between the last records of the files.
-/
theorem replay_iff (files : List WalFile) (table : Table) :
    ((∀ order : List WalFile, order.Perm files →
        LastWriterWins files table (replayAddressTableWAL (order.map WalFile.bytes) table)) ∧
      (∀ order order' : List WalFile, order.Perm files → order'.Perm files →
        ∀ poolId containerId,
          mapped (replayAddressTableWAL (order.map WalFile.bytes) table) poolId containerId =
            mapped (replayAddressTableWAL (order'.map WalFile.bytes) table) poolId containerId)) ↔
      EndsAtLatest files table := by
  refine ⟨fun h => endsAtLatest_of_lastWriterWins h.1, fun h => ⟨fun order hperm =>
    lastWriterWins_of_endsAtLatest hperm h, fun order order' hperm hperm' poolId containerId => ?_⟩⟩
  by_cases hpool : table.contains poolId = true
  · exact (lastWriterWins_of_endsAtLatest hperm h).eq
      (lastWriterWins_of_endsAtLatest hperm' h) hpool containerId
  · have hunknown := Bool.eq_false_iff.mpr hpool
    rw [replay_eq, replay_eq, mapped_unknown (by rw [contains_applyAll, hunknown]),
      mapped_unknown (by rw [contains_applyAll, hunknown])]

/-! ### A replay that goes back -/

/-- Container 3 of pool 1.0 moves to node 8, and node 1 moves it on to node 7 later. -/
def movedTwice : List (UInt32 × WalRecord) :=
  [(2, ⟨1, ⟨1, 0⟩, 3, 1, 8⟩), (1, ⟨2, ⟨1, 0⟩, 3, 8, 7⟩)]

/-- A table with the pool. -/
def knownPool : Table :=
  AMap.empty.insertOrAssign ⟨1, 0⟩
    { numContainers := 4
      containers := AMap.empty
      addressMap := AMap.empty.insertOrAssign 3 1
      localContainer := none
      poolName := [112]
      chimodName := [109]
      chimodParams := []
      staticContainer := none }

/-- Node 1's file is read first: the container is back on node 8. -/
theorem older_record_wins :
    let fromNode1 := fileOf movedTwice ⟨1, 0⟩ 1
    let fromNode2 := fileOf movedTwice ⟨1, 0⟩ 2
    let replayed := replayAddressTableWAL [fromNode1.bytes, fromNode2.bytes] knownPool
    mapped replayed ⟨1, 0⟩ 3 = some 8 ∧
      mapped (replayAddressTableWAL [fromNode2.bytes, fromNode1.bytes] knownPool) ⟨1, 0⟩ 3 = some 7 ∧
      ¬ LastWriterWins [fromNode1, fromNode2] knownPool replayed := by
  refine ⟨by decide, by decide, fun h => ?_⟩
  have hlatest := (h ⟨1, 0⟩ 3 (by decide)).1 ⟨2, ⟨1, 0⟩, 3, 8, 7⟩ ⟨by decide, by decide⟩
  exact absurd hlatest (by decide)

end Pools
end IowarpCore
