/-
What a write-ahead log file gives back.

Two layers meet here.  The file is a sequence of framed records, and what `load`
returns of such a file is settled once and for all in `Lib/Framing.lean`; the only
thing to show is that `loadStep` takes exactly the records `writeRecord` lays out,
which `walFraming` packages.  Inside a record, each deserializer is the inverse of
the payload its `Log` overload writes, field by field.

Together they give the two results about the log.  Loading what was logged, or any
byte prefix of it, returns the transactions that are wholly there
(`load_logAll`).  And a log that is opened again after a crash appends behind the
torn record that `load` skipped, so what is logged afterwards comes back only if
nothing was torn, nothing was logged, or the bytes line up by accident
(`load_reopened_iff`).
-/
import IowarpCore.Wal.TransactionLog

namespace IowarpCore.Wal

open TransactionLog

/-! ### The loader takes exactly the records the writer lays out -/

/-- A type byte and a payload whose length fits the record header. -/
structure Entry where
  type : UInt8
  payload : Bytes
  small : payload.length < 2 ^ 32

namespace Entry

def pair (e : Entry) : UInt8 × Bytes := (e.type, e.payload)

theorem pair_injective {a b : Entry} (h : a.pair = b.pair) : a = b := by
  obtain ⟨ta, pa, _⟩ := a
  obtain ⟨tb, pb, _⟩ := b
  simp only [pair, Prod.mk.injEq] at h
  simp [h.1, h.2]

end Entry

theorem writeRecord_of_small {type : UInt8} {payload : Bytes} (h : payload.length < 2 ^ 32) :
    writeRecord type payload = type :: (writeU32 (UInt32.ofNat payload.length) ++ payload) := by
  have hlen : (UInt32.ofNat payload.length).toNat = payload.length := by
    rw [UInt32.toNat_ofNat']
    omega
  simp [writeRecord, hlen]

theorem loadStep_writeRecord {type : UInt8} {payload : Bytes} (h : payload.length < 2 ^ 32)
    (rest : Bytes) : loadStep (writeRecord type payload ++ rest) = some ((type, payload), rest) := by
  have hlen : (UInt32.ofNat payload.length).toNat = payload.length := by
    rw [UInt32.toNat_ofNat']
    omega
  have hnat : leNat (writeU32 (UInt32.ofNat payload.length)) = payload.length := by
    rw [writeU32, hlen]
    exact leNat_leBytes_of_lt (by omega)
  have htake : (writeU32 (UInt32.ofNat payload.length) ++ (payload ++ rest)).take 4
      = writeU32 (UInt32.ofNat payload.length) := by
    rw [List.take_append_of_le_length (by simp), List.take_of_length_le (by simp)]
  have hdrop : (writeU32 (UInt32.ofNat payload.length) ++ (payload ++ rest)).drop 4
      = payload ++ rest := by
    rw [List.drop_append_of_le_length (by simp), List.drop_of_length_le (by simp), List.nil_append]
  rw [writeRecord_of_small h]
  simp [loadStep, Ifs.read, htake, hdrop, hnat, hlen]

/-- Whatever a pass of the loop takes off the front is a record as `writeRecord` lays it out. -/
theorem loadStep_sound {bs rest : Bytes} {type : UInt8} {payload : Bytes}
    (h : loadStep bs = some ((type, payload), rest)) :
    payload.length < 2 ^ 32 ∧ bs = writeRecord type payload ++ rest := by
  cases bs with
  | nil => simp [loadStep] at h
  | cons b afterType =>
    by_cases h4 : 4 ≤ afterType.length
    · simp only [loadStep, Ifs.read, if_pos h4, not_true_eq_false, if_false] at h
      by_cases hn : (UInt32.ofNat (leNat (afterType.take 4))).toNat ≤ (afterType.drop 4).length
      · simp only [if_pos hn, not_true_eq_false, false_and, if_false, Option.some.injEq,
          Prod.mk.injEq] at h
        obtain ⟨⟨htype, hpay⟩, hrest⟩ := h
        have hlen : payload.length = (UInt32.ofNat (leNat (afterType.take 4))).toNat := by
          rw [← hpay, List.length_take, Nat.min_eq_left hn]
        have hsmall : payload.length < 2 ^ 32 := by
          rw [hlen]
          exact UInt32.toNat_lt _
        -- The four bytes read are the ones the length is written as.
        have hword : writeU32 (UInt32.ofNat payload.length) = afterType.take 4 := by
          have htl : (afterType.take 4).length = 4 := by rw [List.length_take]; omega
          have hlt : leNat (afterType.take 4) < 2 ^ 32 := by
            have := leNat_lt (afterType.take 4)
            rw [htl] at this
            omega
          have hback := leBytes_leNat (afterType.take 4)
          rw [htl] at hback
          rw [hlen, UInt32.ofNat_toNat, writeU32, UInt32.toNat_ofNat', Nat.mod_eq_of_lt hlt]
          exact hback
        refine ⟨hsmall, ?_⟩
        rw [writeRecord_of_small hsmall, hword, ← htype, ← hpay, ← hrest, List.cons_append,
          List.append_assoc, List.take_append_drop, List.take_append_drop]
      · simp only [if_neg hn] at h
        split at h
        · simp at h
        · rename_i hcond
          exfalso
          apply hcond
          simp only [Bool.false_eq_true, not_false_eq_true, true_and]
          omega
    · simp [loadStep, Ifs.read, h4] at h

/-- `loadStep`, with the bound on the payload it read. -/
def nextEntry (bs : Bytes) : Option (Entry × Bytes) :=
  match h : loadStep bs with
  | none => none
  | some ((type, payload), rest) => some (⟨type, payload, (loadStep_sound h).1⟩, rest)

theorem nextEntry_map (bs : Bytes) :
    (nextEntry bs).map (fun r => (r.1.pair, r.2)) = loadStep bs := by
  unfold nextEntry
  split
  · rename_i h
    simp [h]
  · rename_i h
    simp [h, Entry.pair]

theorem nextEntry_eq_some_iff {bs rest : Bytes} {e : Entry} :
    nextEntry bs = some (e, rest) ↔ loadStep bs = some (e.pair, rest) := by
  rw [← nextEntry_map, Option.map_eq_some_iff]
  refine ⟨fun h => ⟨(e, rest), h, rfl⟩, ?_⟩
  rintro ⟨⟨e', rest'⟩, hnext, heq⟩
  simp only [Prod.mk.injEq] at heq
  rw [hnext, Entry.pair_injective heq.1, heq.2]

/-- The records of a log file. -/
def walFraming : Framing Entry where
  frame e := writeRecord e.type e.payload
  next := nextEntry
  next_frame e rest := nextEntry_eq_some_iff.mpr (loadStep_writeRecord e.small rest)
  next_sound h := (loadStep_sound (nextEntry_eq_some_iff.mp h)).2
  frame_ne_nil e := by
    rw [writeRecord_of_small e.small]
    simp

@[simp] theorem walFraming_next (bs : Bytes) : walFraming.next bs = nextEntry bs := rfl

@[simp] theorem walFraming_frame (e : Entry) :
    walFraming.frame e = writeRecord e.type e.payload := rfl

theorem loadLoop_eq_scanFuel (fuel : Nat) (bs : Bytes) :
    loadLoop fuel bs = (walFraming.scanFuel fuel bs).map Entry.pair := by
  induction fuel generalizing bs with
  | zero => rfl
  | succ fuel ih =>
    rw [loadLoop, Framing.scanFuel, walFraming_next, ← nextEntry_map]
    rcases nextEntry bs with _ | ⟨e, rest⟩
    · rfl
    · simp [ih]

/-- `load` is the scan of the file. -/
theorem load_eq_scan (l : TransactionLog) : l.load = (walFraming.scan l.file).map Entry.pair :=
  loadLoop_eq_scanFuel _ _

/-! ### Each deserializer undoes its serializer -/

@[simp] theorem readBlock_blockBytes (blk : TxnExtendBlobBlock) (rest : Bytes) :
    readBlock.run (Txn.blockBytes blk ++ rest) = some (blk, rest) := by
  simp [readBlock, Txn.blockBytes, List.append_assoc]

theorem blockBytes_length (blk : TxnExtendBlobBlock) : (Txn.blockBytes blk).length = 56 := by
  simp [Txn.blockBytes]

theorem readBlocks_flatMap (blks : List TxnExtendBlobBlock) (rest : Bytes) :
    (readBlocks blks.length).run (blks.flatMap Txn.blockBytes ++ rest) = some (blks, rest) := by
  induction blks with
  | nil => rfl
  | cons blk tail ih => simp [readBlocks, List.append_assoc, ih]

theorem flatMap_blockBytes_length (blks : List TxnExtendBlobBlock) :
    (blks.flatMap Txn.blockBytes).length = 56 * blks.length := by
  induction blks with
  | nil => rfl
  | cons blk tail ih =>
    rw [List.flatMap_cons, List.length_append, ih, blockBytes_length, List.length_cons]
    omega

/-- The type written with a transaction selects the deserializer that undoes its payload. -/
theorem deserialize_payload (t : Txn) (h : t.payload.length < 2 ^ 32) :
    deserialize (t.type.toByte, t.payload) = some t := by
  cases t with
  | createNewBlob t =>
    have hname : t.blobName.length < 2 ^ 32 := by simp [Txn.payload] at h; omega
    have hread := readString_write t.blobName (writeU32 t.score.bits) hname
    have hscore := readU32_write t.score.bits []
    rw [List.append_nil] at hscore
    simp [deserialize, Txn.type, TxnType.toByte, TxnType.ofByte, deserializeCreateNewBlob,
      Txn.payload, StateT.run'_eq, List.append_assoc, hread, hscore]
  | extendBlob t =>
    have hlen := flatMap_blockBytes_length t.newBlocks
    have hname : t.blobName.length < 2 ^ 32 := by simp [Txn.payload] at h; omega
    have hcount : (UInt32.ofNat t.newBlocks.length).toNat = t.newBlocks.length := by
      simp only [Txn.payload, List.length_append, hlen] at h
      rw [UInt32.toNat_ofNat']
      omega
    have hread := readString_write t.blobName
      (writeU32 (UInt32.ofNat t.newBlocks.length) ++ t.newBlocks.flatMap Txn.blockBytes) hname
    have hblocks := readBlocks_flatMap t.newBlocks []
    rw [List.append_nil] at hblocks
    simp [deserialize, Txn.type, TxnType.toByte, TxnType.ofByte, deserializeExtendBlob,
      Txn.payload, StateT.run'_eq, List.append_assoc, hread, hcount, hblocks]
  | clearBlob t =>
    have hname : t.blobName.length < 2 ^ 32 := by simp [Txn.payload] at h; omega
    have hread := readString_write t.blobName [] hname
    rw [List.append_nil] at hread
    simp [deserialize, Txn.type, TxnType.toByte, TxnType.ofByte, deserializeClearBlob,
      Txn.payload, StateT.run'_eq, List.append_assoc, hread]
  | delBlob t =>
    have hname : t.blobName.length < 2 ^ 32 := by simp [Txn.payload] at h; omega
    have hread := readString_write t.blobName [] hname
    rw [List.append_nil] at hread
    simp [deserialize, Txn.type, TxnType.toByte, TxnType.ofByte, deserializeDelBlob,
      Txn.payload, StateT.run'_eq, List.append_assoc, hread]
  | createTag t =>
    have hname : t.tagName.length < 2 ^ 32 := by simp [Txn.payload] at h; omega
    have hread := readString_write t.tagName (writeU32 t.tagMajor ++ writeU32 t.tagMinor) hname
    have hminor := readU32_write t.tagMinor []
    rw [List.append_nil] at hminor
    simp [deserialize, Txn.type, TxnType.toByte, TxnType.ofByte, deserializeCreateTag,
      Txn.payload, StateT.run'_eq, List.append_assoc, hread, hminor]
  | delTag t =>
    have hname : t.tagName.length < 2 ^ 32 := by simp [Txn.payload] at h; omega
    have hread := readString_write t.tagName (writeU32 t.tagMajor ++ writeU32 t.tagMinor) hname
    have hminor := readU32_write t.tagMinor []
    rw [List.append_nil] at hminor
    simp [deserialize, Txn.type, TxnType.toByte, TxnType.ofByte, deserializeDelTag,
      Txn.payload, StateT.run'_eq, List.append_assoc, hread, hminor]

/-! ### Logging is framing -/

/-- The pair `load` is to return for a transaction. -/
def Txn.logged (t : Txn) : UInt8 × Bytes := (t.type.toByte, t.payload)

/-- What the log holds of a transaction, once its payload fits the header. -/
def Txn.entry (t : Txn) (h : t.payload.length < 2 ^ 32) : Entry := ⟨t.type.toByte, t.payload, h⟩

/-- The entries of transactions that all fit. -/
def entries (ts : List Txn) (h : ∀ t ∈ ts, t.payload.length < 2 ^ 32) : List Entry :=
  ts.pmap Txn.entry h

theorem entries_pair (ts : List Txn) (h : ∀ t ∈ ts, t.payload.length < 2 ^ 32) :
    (entries ts h).map Entry.pair = ts.map Txn.logged := by
  simp [entries, List.map_pmap, Txn.entry, Entry.pair, Txn.logged]

theorem logAll_file (l : TransactionLog) (ts : List Txn)
    (h : ∀ t ∈ ts, t.payload.length < 2 ^ 32) :
    (l.logAll ts).file = l.file ++ walFraming.frames (entries ts h) := by
  induction ts generalizing l with
  | nil => simp [logAll, entries]
  | cons t rest ih =>
    have hrest : ∀ u ∈ rest, u.payload.length < 2 ^ 32 := fun u hu => h u (by simp [hu])
    show ((l.log t).logAll rest).file = _
    rw [ih (l.log t) hrest]
    simp [entries, log, Txn.entry]

/-- The transactions whose records lie wholly inside the first `n` bytes of their log. -/
def containedIn : Nat → List Txn → List Txn
  | _, [] => []
  | n, t :: rest =>
    let record := writeRecord t.type.toByte t.payload
    if record.length ≤ n then t :: containedIn (n - record.length) rest else []

theorem containedIn_subset (n : Nat) (ts : List Txn) : ∀ t ∈ containedIn n ts, t ∈ ts := by
  induction ts generalizing n with
  | nil => intro t ht; simp [containedIn] at ht
  | cons u rest ih =>
    intro t ht
    simp only [containedIn] at ht
    split at ht
    · rcases List.mem_cons.mp ht with htu | htr
      · simp [htu]
      · exact List.mem_cons_of_mem _ (ih _ t htr)
    · simp at ht

theorem complete_entries (n : Nat) (ts : List Txn) (h : ∀ t ∈ ts, t.payload.length < 2 ^ 32) :
    walFraming.complete n (entries ts h)
      = entries (containedIn n ts) (fun t ht => h t (containedIn_subset n ts t ht)) := by
  induction ts generalizing n with
  | nil => rfl
  | cons t rest ih =>
    have hrest : ∀ u ∈ rest, u.payload.length < 2 ^ 32 := fun u hu => h u (by simp [hu])
    have hunfold : entries (t :: rest) h = Txn.entry t (h t (by simp)) :: entries rest hrest := rfl
    rw [hunfold, Framing.complete, ih]
    by_cases hlen : (writeRecord t.type.toByte t.payload).length ≤ n
    · simp [containedIn, hlen, Txn.entry, entries]
    · simp [containedIn, hlen, Txn.entry, entries]

theorem map_deserialize_pairs (ts : List Txn) (h : ∀ t ∈ ts, t.payload.length < 2 ^ 32) :
    (ts.map Txn.logged).map deserialize = ts.map some := by
  rw [List.map_map]
  exact List.map_congr_left fun t ht => deserialize_payload t (h t ht)

/-- A log loads as what was logged. -/
theorem load_of_logAll (ts : List Txn) (h : ∀ t ∈ ts, t.payload.length < 2 ^ 32) :
    ((openLog none).logAll ts).load = ts.map Txn.logged := by
  have hwhole := walFraming.scan_frames (entries ts h) walFraming.next_nil
  rw [List.append_nil] at hwhole
  have hfile : ((openLog none).logAll ts).file = walFraming.frames (entries ts h) := by
    rw [logAll_file _ _ h]
    rfl
  rw [load_eq_scan, hfile, hwhole, entries_pair]

/--
**The log gives back what was logged, whole or cut.**  Loading a log and
deserializing its entries returns the transactions logged, in order; loading any
byte prefix of it returns the entries of the transactions whose records lie wholly
inside the prefix.
-/
theorem load_logAll (ts : List Txn) (h : ∀ t ∈ ts, t.payload.length < 2 ^ 32) :
    ((openLog none).logAll ts).load.map deserialize = ts.map some ∧
    ∀ n, load ⟨((openLog none).logAll ts).file.take n⟩
        = (containedIn n ts).map Txn.logged ∧
      (load ⟨((openLog none).logAll ts).file.take n⟩).map deserialize
        = (containedIn n ts).map some := by
  have hfile : ((openLog none).logAll ts).file = walFraming.frames (entries ts h) := by
    rw [logAll_file _ _ h]
    rfl
  have hcut : ∀ n, load ⟨((openLog none).logAll ts).file.take n⟩
      = (containedIn n ts).map Txn.logged := by
    intro n
    rw [load_eq_scan, hfile, Framing.scan_take, complete_entries, entries_pair]
  refine ⟨?_, fun n => ⟨hcut n, ?_⟩⟩
  · rw [load_of_logAll ts h, map_deserialize_pairs ts h]
  · rw [hcut n]
    exact map_deserialize_pairs _ fun t ht => h t (containedIn_subset n ts t ht)

/-- A log of one record of each kind, the extend record holding one block. -/
def oneOfEach : List Txn :=
  [.createTag ⟨[116], 1, 1⟩, .createNewBlob ⟨1, 1, [98], F32.one⟩,
    .extendBlob ⟨1, 1, [98], [⟨512, 1, PoolQuery.localQuery, 4096, 7⟩]⟩,
    .clearBlob ⟨1, 1, [98]⟩, .delBlob ⟨1, 1, [98]⟩, .delTag ⟨[116], 1, 1⟩]

theorem load_logAll_oneOfEach :
    ((openLog none).logAll oneOfEach).load.map deserialize = oneOfEach.map some ∧
    (load ⟨((openLog none).logAll oneOfEach).file.take 60⟩).map deserialize
      = (oneOfEach.take 2).map some := by
  have h : ∀ t ∈ oneOfEach, t.payload.length < 2 ^ 32 := by decide
  exact ⟨(load_logAll oneOfEach h).1, ((load_logAll oneOfEach h).2 60).2⟩

/-! ### A log opened again after a crash -/

/-- The bytes behind the last complete record of a log cut after `n` bytes. -/
def tornTail (n : Nat) (ts : List Txn) : Bytes :=
  (((openLog none).logAll ts).file.take n).drop
    ((openLog none).logAll (containedIn n ts)).file.length

theorem tornTail_eq_torn (n : Nat) (ts : List Txn) (h : ∀ t ∈ ts, t.payload.length < 2 ^ 32) :
    tornTail n ts = walFraming.torn n (entries ts h) := by
  have hsub : ∀ t ∈ containedIn n ts, t.payload.length < 2 ^ 32 :=
    fun t ht => h t (containedIn_subset n ts t ht)
  unfold tornTail Framing.torn
  rw [logAll_file _ _ h, logAll_file _ _ hsub, complete_entries]
  rfl

/--
**What a log opened again after a crash gives back.**  The crash leaves the first
`n` bytes of the log of `ts`; the log is opened again and `news` is logged.
Loading it returns the complete records of the prefix followed by `news` exactly
when the crash left no part of a record, nothing was logged afterwards, or the
torn bytes followed by the new records happen to start with the new records and
leave nothing complete over.
-/
theorem load_reopened_iff (ts news : List Txn) (n : Nat)
    (hts : ∀ t ∈ ts, t.payload.length < 2 ^ 32) (hnews : ∀ t ∈ news, t.payload.length < 2 ^ 32) :
    ((openLog (some (((openLog none).logAll ts).file.take n))).logAll news).load
        = (containedIn n ts ++ news).map Txn.logged ↔
      tornTail n ts = [] ∨ news = [] ∨
        ∃ rest, tornTail n ts ++ ((openLog none).logAll news).file
            = ((openLog none).logAll news).file ++ rest ∧
          loadStep rest = none := by
  have hsub : ∀ t ∈ containedIn n ts, t.payload.length < 2 ^ 32 :=
    fun t ht => hts t (containedIn_subset n ts t ht)
  have hfile : ((openLog (some (((openLog none).logAll ts).file.take n))).logAll news).file
      = walFraming.frames (entries (containedIn n ts) hsub) ++ tornTail n ts
        ++ walFraming.frames (entries news hnews) := by
    rw [logAll_file _ _ hnews, tornTail_eq_torn n ts hts, ← complete_entries n ts hts,
      ← Framing.take_frames_torn, logAll_file _ _ hts]
    rfl
  have hnewFile : ((openLog none).logAll news).file = walFraming.frames (entries news hnews) := by
    rw [logAll_file _ _ hnews]
    rfl
  have hpairs : (containedIn n ts ++ news).map Txn.logged
      = (entries (containedIn n ts) hsub ++ entries news hnews).map Entry.pair := by
    rw [List.map_append, List.map_append, entries_pair, entries_pair]
  have htorn : walFraming.next (tornTail n ts) = none := by
    rw [tornTail_eq_torn n ts hts]
    exact walFraming.next_torn n _
  have hnil : entries news hnews = [] ↔ news = [] := by simp [entries]
  have hstep : ∀ rest, walFraming.next rest = none ↔ loadStep rest = none := by
    intro rest
    rw [walFraming_next, ← nextEntry_map, Option.map_eq_none_iff]
  rw [load_eq_scan, hpairs, List.map_inj_right fun _ _ => Entry.pair_injective, hfile,
    Framing.scan_append_iff _ _ _ htorn, hnewFile, hnil]
  simp only [hstep]

/-- Cut at a record boundary, the log takes new records as if nothing had happened. -/
theorem load_reopened_at_boundary :
    ((openLog (some (((openLog none).logAll oneOfEach).file.take 40))).logAll
        [.delBlob ⟨1, 1, [99]⟩]).load
      = (oneOfEach.take 2 ++ [Txn.delBlob ⟨1, 1, [99]⟩]).map Txn.logged :=
  (load_reopened_iff oneOfEach [.delBlob ⟨1, 1, [99]⟩] 40 (by decide) (by decide)).mpr
    (Or.inl (by decide))

/-- Ten bytes of a deletion are on disk when the log is opened again and one more is logged. -/
theorem load_reopened_torn :
    ¬((openLog (some (((openLog none).logAll [.delBlob ⟨1, 1, [98]⟩]).file.take 10))).logAll
        [.delBlob ⟨1, 1, [99]⟩]).load
      = (containedIn 10 [.delBlob ⟨1, 1, [98]⟩] ++ [Txn.delBlob ⟨1, 1, [99]⟩]).map Txn.logged := by
  decide

end IowarpCore.Wal
