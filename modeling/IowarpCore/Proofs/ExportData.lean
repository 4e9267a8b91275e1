/-
What an export writes, and what is read back.

A blob is exported if each of its steps goes through (`Passes`), and the file is the records of
these blobs in their order (`foldl_exportBlob`).  A file of records is read back whole
(`parse_records`).
-/
import IowarpCore.Cae.ExportData

namespace IowarpCore

namespace ExportData

variable {o : Outcomes}

/-! ### Records -/

/-- The record of a blob. -/
def record (blob : Bytes × Bytes) : Bytes :=
  writeString blob.1 ++ writeU64 (UInt64.ofNat blob.2.length) ++ blob.2

theorem readRecord_record {blob : Bytes × Bytes} (hname : blob.1.length < 2 ^ 32)
    (hdata : blob.2.length < 2 ^ 64) (rest : Bytes) :
    readRecord.run (record blob ++ rest) = some (blob, rest) := by
  have hlength : (UInt64.ofNat blob.2.length).toNat = blob.2.length := by
    rw [UInt64.toNat_ofNat', Nat.mod_eq_of_lt hdata]
  simp only [readRecord, record, StateT.run_bind, List.append_assoc, readString_write _ _ hname,
    Option.bind_eq_bind, Option.bind_some, readU64_write, hlength, readBytes_append]
  rfl

theorem parseFuel_records {blobs : List (Bytes × Bytes)}
    (hblobs : ∀ blob ∈ blobs, blob.1.length < 2 ^ 32 ∧ blob.2.length < 2 ^ 64) {fuel : Nat}
    (hfuel : (blobs.flatMap record).length ≤ fuel) :
    parseFuel fuel (blobs.flatMap record) = some blobs := by
  induction blobs generalizing fuel with
  | nil =>
    cases fuel with
    | zero => rfl
    | succ fuel => rfl
  | cons blob blobs ih =>
    obtain ⟨⟨hname, hdata⟩, hrest⟩ := List.forall_mem_cons.mp hblobs
    have hread := readRecord_record hname hdata (blobs.flatMap record)
    rw [List.flatMap_cons] at hfuel ⊢
    have hlength : (record blob).length = 4 + blob.1.length + 8 + blob.2.length := by
      simp only [record, List.length_append, writeString_length, writeU64_length]
    rw [List.length_append, hlength] at hfuel
    cases fuel with
    | zero => omega
    | succ fuel =>
      have hcons : record blob ++ blobs.flatMap record ≠ [] := by
        intro hnil
        have hzero := congrArg List.length hnil
        rw [List.length_append, hlength, List.length_nil] at hzero
        omega
      have hlater : parseFuel fuel (blobs.flatMap record) = some blobs := ih hrest (by omega)
      rw [parseFuel.eq_3 _ _ hcons, hread]
      simp only [Option.bind_eq_bind, Option.bind_some, hlater]
      rfl

/-- A file of records is read back whole. -/
theorem parse_records {blobs : List (Bytes × Bytes)}
    (hblobs : ∀ blob ∈ blobs, blob.1.length < 2 ^ 32 ∧ blob.2.length < 2 ^ 64) :
    parse (blobs.flatMap record) = some blobs :=
  parseFuel_records hblobs (Nat.le_refl _)

/-! ### The loop -/

/-- Every step of the blob goes through. -/
def Passes (o : Outcomes) (blobName : Bytes) : Prop :=
  o.getBlobSize blobName = true ∧ o.allocateBuffer blobName = true ∧ o.getBlob blobName = 0

instance (o : Outcomes) (blobName : Bytes) : Decidable (Passes o blobName) :=
  inferInstanceAs (Decidable (_ ∧ _ ∧ _))

/-- The blobs that are not empty. -/
def nonEmpty (blobs : List (Bytes × Content)) : List (Bytes × Bytes) :=
  (blobs.map fun blob => (blob.1, blob.2.1)).filter fun blob => blob.2 ≠ []

/-- The blobs that are exported. -/
def exported (o : Outcomes) (blobs : List (Bytes × Content)) : List (Bytes × Bytes) :=
  (nonEmpty blobs).filter fun blob => Passes o blob.1

def total (blobs : List (Bytes × Bytes)) : UInt64 :=
  blobs.foldl (fun bytes blob => bytes + UInt64.ofNat blob.2.length) 0

theorem blobSize_eq_zero_iff (blob : Bytes × Content) :
    (if o.getBlobSize blob.1 then UInt64.ofNat blob.2.1.length else 0) = 0 ↔
      ¬ (o.getBlobSize blob.1 = true ∧ blob.2.1 ≠ []) := by
  by_cases hsize : o.getBlobSize blob.1 = true
  · rw [if_pos hsize, ← UInt64.toNat_inj, UInt64.toNat_ofNat', Nat.mod_eq_of_lt blob.2.2]
    have hzero : (0 : UInt64).toNat = 0 := rfl
    rw [hzero, List.length_eq_zero_iff]
    exact ⟨fun h hand => hand.2 h, fun h => by_contra fun hne => h ⟨hsize, hne⟩⟩
  · rw [if_neg hsize]
    exact iff_of_true rfl fun hand => hsize hand.1

/-- One blob of the loop, if every write goes through. -/
theorem exportBlob_eq {blob : Bytes × Content} (hname : blob.1.length < 2 ^ 32) (file : Bytes)
    (bytesExported : UInt64) :
    exportBlob o (⟨file, none⟩, bytesExported) blob =
      if blob.2.1 ≠ [] ∧ Passes o blob.1 then
        (⟨file ++ record (blob.1, blob.2.1), none⟩,
          bytesExported + UInt64.ofNat blob.2.1.length)
      else (⟨file, none⟩, bytesExported) := by
  have hsize := blobSize_eq_zero_iff (o := o) blob
  obtain ⟨blobName, content⟩ := blob
  simp only at hsize hname ⊢
  unfold exportBlob
  by_cases hzero : (if o.getBlobSize blobName then UInt64.ofNat content.1.length else 0) = 0
  · rw [if_neg fun h => hsize.mp hzero ⟨h.2.1, h.1⟩]
    simp only [if_pos hzero]
  obtain ⟨hquery, hne⟩ := not_not.mp (hsize.not.mp hzero)
  simp only [if_neg hzero]
  by_cases halloc : o.allocateBuffer blobName = true
  · by_cases hread : o.getBlob blobName = 0
    · have hlength : (UInt32.ofNat blobName.length).toNat = blobName.length := by
        rw [UInt32.toNat_ofNat', Nat.mod_eq_of_lt hname]
      have hpass : content.1 ≠ [] ∧ Passes o blobName := ⟨hne, hquery, halloc, hread⟩
      rw [if_neg (not_not_intro halloc), if_pos hread, if_pos hpass]
      simp only [OFStream.write, hlength, List.take_length, if_pos hquery, record, writeString,
        List.append_assoc]
    · rw [if_neg (not_not_intro halloc), if_neg hread, if_neg fun h => hread h.2.2.2]
  · rw [if_pos halloc, if_neg fun h => halloc h.2.2.1]

/-- **What the loop writes**: the records of the blobs that pass, in their order. -/
theorem foldl_exportBlob {blobs : List (Bytes × Content)}
    (hnames : ∀ blob ∈ blobs, blob.1.length < 2 ^ 32) (file : Bytes) (bytesExported : UInt64) :
    blobs.foldl (exportBlob o) (⟨file, none⟩, bytesExported) =
      (⟨file ++ (exported o blobs).flatMap record, none⟩,
        (exported o blobs).foldl (fun bytes blob => bytes + UInt64.ofNat blob.2.length)
          bytesExported) := by
  induction blobs generalizing file bytesExported with
  | nil => rw [List.foldl_nil, exported, nonEmpty, List.map_nil, List.filter_nil, List.filter_nil,
      List.flatMap_nil, List.append_nil, List.foldl_nil]
  | cons blob blobs ih =>
    obtain ⟨hname, hrest⟩ := List.forall_mem_cons.mp hnames
    have hcons : exported o (blob :: blobs) =
        if blob.2.1 ≠ [] ∧ Passes o blob.1 then (blob.1, blob.2.1) :: exported o blobs
        else exported o blobs := by
      unfold exported nonEmpty
      rw [List.map_cons, List.filter_cons]
      by_cases hne : blob.2.1 ≠ []
      · rw [if_pos (decide_eq_true hne), List.filter_cons]
        by_cases hpass : Passes o blob.1
        · rw [if_pos (decide_eq_true hpass), if_pos ⟨hne, hpass⟩]
        · rw [if_neg (by simpa using hpass), if_neg fun h => hpass h.2]
      · rw [if_neg (by simpa using hne), if_neg fun h => hne h.1]
    rw [List.foldl_cons, exportBlob_eq hname, hcons]
    split
    · rw [ih hrest, List.flatMap_cons, List.append_assoc, List.foldl_cons]
    · rw [ih hrest]

/-! ### The export -/

/-- What the results of an export say of a tag. -/
structure Faithful (o : Outcomes) (store : Store) (existing : Option Bytes) (tagName : Bytes)
    (r : Exported) : Prop where
  /-- the file is read back as the blobs whose steps all went through, each once -/
  exported : ∀ blobs, store.find? tagName = some blobs → blobs.entries ≠ [] → r.resultCode = 0 →
    o.isOpen = true ∧ ∃ file, r.file = some file ∧
      parse file = some (exported o blobs.entries) ∧
      r.bytesExported = total (ExportData.exported o blobs.entries)
  /-- these are all that are not empty if nothing failed -/
  complete : ∀ blobs, store.find? tagName = some blobs →
    (ExportData.exported o blobs.entries = nonEmpty blobs.entries ↔
      ∀ blob ∈ nonEmpty blobs.entries, Passes o blob.1)
  /-- without blobs there is nothing to write -/
  hollow : ∀ blobs, store.find? tagName = some blobs → blobs.entries = [] → r.resultCode = 0 →
    r.bytesExported = 0 ∧ r.file = existing
  /-- a tag that is absent is created, or the export fails -/
  absent : store.find? tagName = none →
    (r.resultCode = 0 ∧ r.bytesExported = 0 ∧ r.file = existing ∧
        r.store.find? tagName = some AMap.empty) ∨
      (r.resultCode ≠ 0 ∧ r.errorMessage = "Tag not found" ∧ r.store = store ∧ r.file = existing)

theorem exported_eq_iff (blobs : List (Bytes × Content)) :
    exported o blobs = nonEmpty blobs ↔ ∀ blob ∈ nonEmpty blobs, Passes o blob.1 := by
  rw [exported, List.filter_eq_self]
  exact forall₂_congr fun _ _ => decide_eq_true_iff

/-- Names and data of the blobs that are exported have lengths that can be written. -/
theorem lengths_exported {blobs : List (Bytes × Content)}
    (hnames : ∀ blob ∈ blobs, blob.1.length < 2 ^ 32) :
    ∀ blob ∈ exported o blobs, blob.1.length < 2 ^ 32 ∧ blob.2.length < 2 ^ 64 := by
  intro blob hblob
  have hmem := List.mem_of_mem_filter (List.mem_of_mem_filter hblob)
  obtain ⟨blob', hblob', rfl⟩ := List.mem_map.mp hmem
  exact ⟨hnames blob' hblob', blob'.2.2⟩

/-- **An export in binary format that reports success has written the blobs of the tag whose
size, buffer and data it got, each once and whole, and says how many bytes they are.** -/
theorem export_faithful (o : Outcomes) (store : Store) (existing : Option Bytes) (tagName : Bytes)
    {format : String} (hformat : format ≠ "hdf5") (hroom : o.room = none)
    (hnames : ∀ blobs, store.find? tagName = some blobs →
      ∀ blob ∈ blobs.entries, blob.1.length < 2 ^ 32) :
    Faithful o store existing tagName (exportData o store existing tagName format) := by
  have hminus : (-1 : UInt32) ≠ 0 := by decide
  unfold exportData
  by_cases htag : o.getOrCreateTag = true
  case neg =>
    rw [if_pos htag]
    exact ⟨fun _ _ _ h => absurd h hminus, fun blobs _ => exported_eq_iff blobs.entries,
      fun _ _ _ h => absurd h hminus, fun _ => .inr ⟨hminus, rfl, rfl, rfl⟩⟩
  rw [if_neg (not_not_intro htag)]
  cases hfind : store.find? tagName with
  | none =>
    have hcontains : ¬ store.contains tagName = true := by
      rw [AMap.contains, hfind]
      exact Bool.false_ne_true
    have hnone : (Option.getD none AMap.empty : AMap Bytes Content).entries = [] := rfl
    have hno : ∀ {blobs}, store.find? tagName ≠ some blobs := by
      intro blobs
      rw [hfind]
      exact Option.some_ne_none blobs ∘ Eq.symm
    rw [if_pos hnone, if_neg hcontains]
    exact ⟨fun _ h => absurd h hno, fun _ h => absurd h hno, fun _ h => absurd h hno,
      fun _ => .inl ⟨rfl, rfl, rfl, AMap.find?_insertOrAssign_self _ _ _⟩⟩
  | some blobs =>
    have hnames' := hnames blobs hfind
    have hfound : ∀ {blobs'}, store.find? tagName = some blobs' → blobs = blobs' := by
      intro blobs' h
      exact Option.some.inj (hfind.symm.trans h)
    rw [Option.getD_some]
    refine ⟨?_, fun blobs' _ => exported_eq_iff blobs'.entries, ?_,
      fun h => absurd (hfind.symm.trans h) (Option.some_ne_none blobs)⟩
    · intro blobs' hblobs' hne
      obtain rfl := hfound hblobs'
      rw [if_neg hne, if_neg hformat]
      by_cases hopen : o.isOpen = true
      · rw [if_neg (not_not_intro hopen), hroom, foldl_exportBlob hnames', List.nil_append]
        exact fun _ => ⟨hopen, _, rfl, parse_records (lengths_exported hnames'), rfl⟩
      · have hminus' : (-2 : UInt32) ≠ 0 := by decide
        rw [if_pos hopen]
        exact fun h => absurd h hminus'
    · intro blobs' hblobs' hempty _
      obtain rfl := hfound hblobs'
      rw [if_pos hempty]
      exact ⟨rfl, rfl⟩

/-- Everything goes through. -/
def smooth : Outcomes := ⟨true, true, fun _ => true, fun _ => true, fun _ => 0, none⟩

/-- No size for the blob 4, no buffer for 6, no data for 8. -/
def rough : Outcomes :=
  { smooth with
    getBlobSize := fun name => name != [4]
    allocateBuffer := fun name => name != [6]
    getBlob := fun name => if name = [8] then 1 else 0 }

/-- The blobs of a tag, one of them empty. -/
def mixedBlobs : AMap Bytes Content :=
  ((((AMap.empty.insertOrAssign [2] ⟨[3, 4], by decide⟩).insertOrAssign [4] ⟨[5], by decide⟩)
    |>.insertOrAssign [6] ⟨[7], by decide⟩).insertOrAssign [8] ⟨[9, 9], by decide⟩)
    |>.insertOrAssign [10] ⟨[], by decide⟩ |>.insertOrAssign [12] ⟨[13, 14, 15], by decide⟩

/-- Two tags, one without blobs. -/
def twoTags : Store :=
  (AMap.empty.insertOrAssign [0] AMap.empty).insertOrAssign [1] mixedBlobs

theorem export_faithful_mixed :
    Faithful rough twoTags (some [1, 2, 3]) [1]
        (exportData rough twoTags (some [1, 2, 3]) [1] "binary") ∧
      exported rough mixedBlobs.entries = [([2], [3, 4]), ([12], [13, 14, 15])] :=
  ⟨export_faithful rough twoTags (some [1, 2, 3]) [1] (by decide) rfl (by
    intro blobs hblobs
    have hmixed : twoTags.find? [1] = some mixedBlobs := rfl
    obtain rfl := Option.some.inj (hmixed.symm.trans hblobs)
    decide), by decide⟩

/-- An export of everything, or an error. -/
def Complete (store : Store) (tagName : Bytes) (r : Exported) : Prop :=
  r.resultCode = 0 → ∀ blobs, store.find? tagName = some blobs →
    ∃ file records, r.file = some file ∧ parse file = some records ∧
      records.Perm (nonEmpty blobs.entries) ∧ r.bytesExported = total records

/-- An error for a tag that does not exist, which still does not afterwards. -/
def AbsentReported (store : Store) (tagName : Bytes) (r : Exported) : Prop :=
  store.find? tagName = none → r.resultCode ≠ 0 ∧ r.store.find? tagName = none

/-- A blob without a buffer is left out of an export that reports success, and a tag that does
not exist is created and exported as one without blobs. -/
theorem blob_left_out_and_tag_created :
    (¬ ∀ (o : Outcomes) (store : Store) (existing : Option Bytes) (tagName : Bytes),
        Complete store tagName (exportData o store existing tagName "binary")) ∧
      ¬ ∀ (o : Outcomes) (store : Store) (existing : Option Bytes) (tagName : Bytes),
        AbsentReported store tagName (exportData o store existing tagName "binary") := by
  constructor
  · intro hclaim
    obtain ⟨file, records, hfile, hparse, hperm, -⟩ :=
      hclaim { smooth with allocateBuffer := fun _ => false } twoTags none [1] rfl mixedBlobs rfl
    obtain rfl : ([] : Bytes) = file := Option.some.inj hfile
    obtain rfl : [] = records := Option.some.inj hparse
    exact absurd hperm.length_eq (by decide)
  · intro hclaim
    exact (hclaim smooth AMap.empty none [1] rfl).1 rfl

end ExportData

end IowarpCore
