/-
Asynchronous and synchronous calls use different blobs.

`Write` and `Read` work on the pages, `AWrite` and `ARead` on the blob named as the file, and
only the former move the position.  So the two agree where it makes no difference: the data
is already held, at its place, by the pages and by that blob, and the position is not to be
moved (`agree_iff`).
-/
import IowarpCore.Proofs.Filesystem

namespace IowarpCore
namespace Adapter

/-- The bytes are found at their places. -/
def HeldAt (look : Nat → Option UInt8) (off : Nat) (data : Bytes) : Prop :=
  ∀ i, i < data.length → look (off + i) = data[i]?

/-- The byte at a place of the file, in its page. -/
def Blobs.pageByte (ps : PageSize) (b : Blobs) (x : Nat) : Option UInt8 :=
  (b.page (x / ps.bytes))[x % ps.bytes]?

/-- The byte at a place of the blob named as the file. -/
def Blobs.pathByte (b : Blobs) (x : Nat) : Option UInt8 :=
  (b.blob .path)[x]?

variable {ps : PageSize} {b : Blobs} {off : Nat} {data : Bytes}

theorem HeldAt.take {look : Nat → Option UInt8} (h : HeldAt look off data) (n : Nat) :
    HeldAt look off (data.take n) := by
  intro i hi
  rw [List.length_take] at hi
  rw [List.getElem?_take_of_lt (by omega)]
  exact h i (by omega)

theorem HeldAt.drop {look : Nat → Option UInt8} (h : HeldAt look off data) (n : Nat) :
    HeldAt look (off + n) (data.drop n) := by
  intro i hi
  rw [List.length_drop] at hi
  rw [List.getElem?_drop, Nat.add_assoc]
  exact h (n + i) (by omega)

/-! ### A blob that holds the data -/

/-- Overwriting bytes with themselves. -/
theorem patch_of_held {junk : Nat → UInt8} {blob : Bytes} (hdata : data ≠ [])
    (h : HeldAt (fun x => blob[x]?) off data) : patch junk off data blob = blob := by
  have hpos : 0 < data.length := List.length_pos_iff.mpr hdata
  have hend : off + data.length ≤ blob.length := by
    have hlast := h (data.length - 1) (by omega)
    rw [List.getElem?_eq_getElem (by omega)] at hlast
    have := (List.getElem?_eq_some_iff.mp hlast).1
    omega
  refine List.ext_getElem? fun i => ?_
  by_cases hi : i < blob.length
  · by_cases hin : off ≤ i ∧ i < off + data.length
    · rw [getElem?_patch_inside hin.1 hin.2, ← h (i - off) (by omega), Nat.add_sub_of_le hin.1]
    · exact getElem?_patch_outside hi (by omega)
  · rw [List.getElem?_eq_none (l := blob) (by omega), List.getElem?_eq_none]
    rw [length_patch]
    omega

theorem putBlob_of_held (junk : Junk) {name : BlobName}
    (h : HeldAt (fun x => (b.blob name)[x]?) off data) : b.putBlob junk name data off = b := by
  unfold Blobs.putBlob
  split
  · rfl
  · rename_i hdata
    have hpos : 0 < data.length := List.length_pos_iff.mpr hdata
    have hpatch : patch (junk name) off data ((b.find? name).getD []) = (b.find? name).getD [] :=
      patch_of_held hdata h
    rw [hpatch]
    cases hfind : b.find? name with
    | none =>
      have hfirst := h 0 hpos
      rw [Blobs.blob, hfind, List.getElem?_eq_getElem hpos] at hfirst
      cases hfirst
    | some v => exact AMap.insertOrAssign_of_find hfind

theorem getBlob_eq_some_iff (b : Blobs) (name : BlobName) (off : Nat) (hdata : data ≠ []) :
    b.getBlob name data.length off = some data ↔ HeldAt (fun x => (b.blob name)[x]?) off data := by
  have hpos : 0 < data.length := List.length_pos_iff.mpr hdata
  rw [Blobs.getBlob_eq]
  constructor
  · intro h i hi
    split at h
    · have hdata' := Option.some.inj h
      show (b.blob name)[off + i]? = _
      rw [← List.getElem?_drop, ← List.getElem?_take_of_lt hi, hdata']
    · cases h
  · intro h
    have hlast := h (data.length - 1) (by omega)
    rw [List.getElem?_eq_getElem (by omega)] at hlast
    have hend := (List.getElem?_eq_some_iff.mp hlast).1
    rw [if_pos ⟨hpos, by omega⟩]
    refine congrArg some (List.ext_getElem? fun i => ?_)
    by_cases hi : i < data.length
    · rw [List.getElem?_take_of_lt hi, List.getElem?_drop]
      exact h i hi
    · rw [List.getElem?_eq_none (l := data) (by omega), List.getElem?_eq_none]
      rw [List.length_take]
      omega

/-! ### Pages that hold the data -/

/-- The part of the data that belongs to the first page is held there. -/
theorem held_first (h : HeldAt (b.pageByte ps) off data) {n : Nat}
    (hn : off % ps.bytes + n ≤ ps.bytes) :
    HeldAt (fun x => (b.blob (.page (off / ps.bytes)))[x]?) (off % ps.bytes) (data.take n) := by
  intro i hi
  have hheld := h.take n i hi
  rw [List.length_take] at hi
  obtain ⟨hdiv, hmod⟩ := div_mod_of_room (a := off) (c := ps.bytes) (j := i) (by omega)
  unfold Blobs.pageByte at hheld
  rw [hdiv, hmod] at hheld
  exact hheld

/-- **Writing what the pages hold changes nothing.** -/
theorem writeLoop_of_held (junk : Junk) {fuel : Nat} (h : HeldAt (b.pageByte ps) off data) :
    b.writeLoop ps junk fuel off data = b := by
  induction fuel generalizing off data with
  | zero => rfl
  | succ fuel ih =>
    unfold Blobs.writeLoop
    split
    · rfl
    · have hmod := Nat.mod_lt off ps.pos
      dsimp only
      rw [putBlob_of_held junk (held_first h (by omega))]
      exact ih (h.drop _)

/-- **A read of what the pages hold.** -/
theorem readLoop_of_held {fuel : Nat} (hfuel : data.length ≤ fuel)
    (h : HeldAt (b.pageByte ps) off data) : (b.readLoop ps fuel off data.length).1 = data := by
  induction fuel generalizing off data with
  | zero => exact (List.eq_nil_of_length_eq_zero (by omega)).symm
  | succ fuel ih =>
    unfold Blobs.readLoop
    split
    · rename_i hzero
      exact (List.eq_nil_of_length_eq_zero hzero).symm
    · rename_i hne
      have hmod := Nat.mod_lt off ps.pos
      dsimp only
      generalize hn : min (ps.bytes - off % ps.bytes) data.length = n
      have htake : (data.take n).length = n := by
        rw [List.length_take]
        omega
      have hfirst : data.take n ≠ [] := List.ne_nil_of_length_pos (by omega)
      have hget := (getBlob_eq_some_iff b _ _ hfirst).mpr (held_first h (n := n) (by omega))
      rw [htake] at hget
      have hdrop : data.length - n = (data.drop n).length := by rw [List.length_drop]
      rw [hget]
      dsimp only
      rw [hdrop, ih (by rw [List.length_drop]; omega) (h.drop n), List.take_append_drop]

/-- The pages hold the data that a read returns. -/
theorem held_of_readLoop (h : (b.readLoop ps data.length off data.length).1 = data) :
    HeldAt (b.pageByte ps) off data := by
  intro i hi
  have hget := readLoop_getElem? ps b data.length off data.length (by rw [h]; exact hi)
  rw [h] at hget
  exact hget.symm

/-! ### After a write -/

variable {junk : Junk}

/-- A put into a page leaves the bytes before it. -/
theorem pageByte_putBlob_before {x n : Nat} {v : UInt8} (hx : x < off)
    (h : b.pageByte ps x = some v) :
    (b.putBlob junk (.page (off / ps.bytes)) (data.take n) (off % ps.bytes)).pageByte ps x =
      some v := by
  unfold Blobs.pageByte at h ⊢
  by_cases hdata : data.take n = []
  · rw [Blobs.putBlob, if_pos hdata]
    exact h
  · rw [b.page_putBlob junk _ _ hdata]
    by_cases hpage : x / ps.bytes = off / ps.bytes
    · have hxx := Nat.div_add_mod' x ps.bytes
      have hoff := Nat.div_add_mod' off ps.bytes
      rw [hpage] at h hxx ⊢
      rw [Function.update_self, getElem?_patch_outside (List.getElem?_eq_some_iff.mp h).1]
      · exact h
      · left
        omega
    · rw [Function.update_of_ne hpage]
      exact h

theorem pageByte_writeLoop_before {fuel x : Nat} {v : UInt8} (hx : x < off)
    (h : b.pageByte ps x = some v) : (b.writeLoop ps junk fuel off data).pageByte ps x = some v := by
  induction fuel generalizing b off data with
  | zero => exact h
  | succ fuel ih =>
    unfold Blobs.writeLoop
    split
    · exact h
    · exact ih (by omega) (pageByte_putBlob_before hx h)

/-- **The pages hold what was written to them.** -/
theorem held_writeLoop {fuel : Nat} (hfuel : data.length ≤ fuel) :
    HeldAt ((b.writeLoop ps junk fuel off data).pageByte ps) off data := by
  induction fuel generalizing b off data with
  | zero =>
    intro i hi
    omega
  | succ fuel ih =>
    unfold Blobs.writeLoop
    split
    · rename_i hnil
      intro i hi
      rw [hnil] at hi
      cases hi
    · rename_i hdata
      have hpos : 0 < data.length := List.length_pos_iff.mpr hdata
      have hmod := Nat.mod_lt off ps.pos
      dsimp only
      generalize hn : min (ps.bytes - off % ps.bytes) data.length = n
      have htake : (data.take n).length = n := by
        rw [List.length_take]
        omega
      have hfirst : data.take n ≠ [] := List.ne_nil_of_length_pos (by omega)
      intro i hi
      by_cases hin : i < n
      · -- a byte of this page: the pages written later are others
        rw [List.getElem?_eq_getElem hi]
        refine pageByte_writeLoop_before (by omega) ?_
        obtain ⟨hdiv, hmod'⟩ := div_mod_of_room (a := off) (c := ps.bytes) (j := i) (by omega)
        unfold Blobs.pageByte
        rw [b.page_putBlob junk _ _ hfirst, hdiv, hmod', Function.update_self,
          getElem?_patch_inside (by omega) (by omega), Nat.add_sub_cancel_left,
          List.getElem?_take_of_lt hin, List.getElem?_eq_getElem hi]
      · generalize b.putBlob junk (.page (off / ps.bytes)) (data.take n) (off % ps.bytes) = b'
        have hrest : HeldAt ((b'.writeLoop ps junk fuel (off + n) (data.drop n)).pageByte ps)
            (off + n) (data.drop n) := ih (by rw [List.length_drop]; omega)
        have hlater := hrest (i - n) (by rw [List.length_drop]; omega)
        rw [List.getElem?_drop, show off + n + (i - n) = off + i by omega,
          show n + (i - n) = i by omega] at hlater
        exact hlater

/-- Writing pages leaves the blob named as the file. -/
theorem blob_path_writeLoop {fuel : Nat} :
    (b.writeLoop ps junk fuel off data).blob .path = b.blob .path := by
  induction fuel generalizing b off data with
  | zero => rfl
  | succ fuel ih =>
    unfold Blobs.writeLoop
    split
    · rfl
    · dsimp only
      rw [ih]
      exact Blobs.blob_putBlob_of_ne (by simp)

/-- Putting into that blob leaves the pages. -/
theorem page_putBlob_path : (b.putBlob junk .path data off).page = b.page := by
  funext p
  exact Blobs.blob_putBlob_of_ne (by simp)

theorem readLoop_congr {b' : Blobs} (h : b'.page = b.page) (fuel off size : Nat) :
    b'.readLoop ps fuel off size = b.readLoop ps fuel off size := by
  induction fuel generalizing off size with
  | zero => rfl
  | succ fuel ih =>
    have hget : ∀ p size off, b'.getBlob (.page p) size off = b.getBlob (.page p) size off := by
      intro p size off
      have hblob : b'.blob (.page p) = b.blob (.page p) := congrFun h p
      rw [Blobs.getBlob_eq, Blobs.getBlob_eq, hblob]
    simp only [Blobs.readLoop, hget, ih]

/-! ### Both ways -/

/-- `AWrite` followed by `Wait`. -/
def File.aWriteWait (s : File) (junk : Junk) (data : Bytes) (off : Nat) (doSeek : Bool) : File :=
  let r := s.aWrite junk data off doSeek
  (r.1.wait r.2).1

/-- `ARead` followed by `Wait`. -/
def File.aReadWait (s : File) (off size : Nat) (doSeek : Bool) : ReadResult :=
  let r := s.aRead off size doSeek
  (r.1.wait r.2).2

/-- The asynchronous calls do what the synchronous ones do. -/
structure Agree (s : File) (junk junk' : Junk) (data : Bytes) (off : Nat) (doSeek : Bool) : Prop where
  contents : ∀ off' size doSeek',
    ((s.aWriteWait junk' data off doSeek).read off' size doSeek').2 =
      ((s.write junk data off doSeek).1.read off' size doSeek').2
  position : (s.aWriteWait junk' data off doSeek).stat.stPtr =
    (s.write junk data off doSeek).1.stat.stPtr
  size : (s.aWriteWait junk' data off doSeek).getSize.2 =
    (s.write junk data off doSeek).1.getSize.2
  read : s.aReadWait off data.length doSeek = (s.read off data.length doSeek).2
  /-- A `Read` after `AWrite` and `Wait` returns the written bytes. -/
  readBack : ((s.aWriteWait junk' data off doSeek).read off data.length doSeek).2.data = data
  /-- So does an `ARead` after `Write`. -/
  aReadBack : ((s.write junk data off doSeek).1.aReadWait off data.length doSeek).data = data

/-- Where `Write` writes. -/
def File.writeOffset (s : File) (off : Nat) : Nat :=
  if s.stat.stPtr = sizeMax then s.stat.fileSize else off

/-- The write changes nothing, in whichever way it is made. -/
structure Already (s : File) (data : Bytes) (off : Nat) (doSeek : Bool) : Prop where
  readable : s.stat.readable = true
  position : doSeek = true → s.stat.stPtr = s.writeOffset off + data.length
  pages : HeldAt (s.blobs.pageByte s.stat.pageSize) off data
  /-- A file in append mode is written elsewhere. -/
  appended : HeldAt (s.blobs.pageByte s.stat.pageSize) (s.writeOffset off) data
  path : HeldAt s.blobs.pathByte off data

variable {s : File}

theorem File.seekTo_blobs (s : File) (doSeek : Bool) (ptr : Nat) :
    (s.seekTo doSeek ptr).blobs = s.blobs := by
  cases doSeek <;> rfl

theorem File.write_blobs (s : File) (junk : Junk) (data : Bytes) (off : Nat) (doSeek : Bool) :
    (s.write junk data off doSeek).1.blobs =
      s.blobs.writeLoop s.stat.pageSize junk data.length (s.writeOffset off) data :=
  File.seekTo_blobs _ _ _

theorem File.write_stat (s : File) (junk : Junk) (data : Bytes) (off : Nat) (doSeek : Bool) :
    (s.write junk data off doSeek).1.stat = { s.stat with
      stPtr := if doSeek then s.writeOffset off + data.length else s.stat.stPtr } := by
  cases doSeek <;> rfl

theorem File.aReadWait_eq (s : File) (off size : Nat) (doSeek : Bool) :
    s.aReadWait off size doSeek =
      ((s.blobs.getBlob .path size off).map (ReadResult.mk size)).getD ⟨0, []⟩ := by
  show (s.wait (.get size off)).2 = _
  simp only [File.wait]
  cases s.blobs.getBlob .path size off with
  | none => rfl
  | some data => rfl

/-- What a read returns does not depend on the position. -/
theorem File.read_congr {s t : File} (hblobs : t.blobs = s.blobs)
    (hpageSize : t.stat.pageSize = s.stat.pageSize) (hread : t.stat.readable = s.stat.readable)
    (off size : Nat) (doSeek : Bool) : (t.read off size doSeek).2 = (s.read off size doSeek).2 := by
  unfold File.read
  rw [hblobs, hpageSize, hread]
  split_ifs
  · rfl
  · rfl
  · rfl
  · rfl

/-- An asynchronous read finds what the blob named as the file holds. -/
theorem aReadWait_of_held (doSeek : Bool) (h : HeldAt s.blobs.pathByte off data) :
    s.aReadWait off data.length doSeek = ⟨data.length, data⟩ := by
  rw [File.aReadWait_eq]
  by_cases hdata : data = []
  · rw [hdata, Blobs.getBlob_eq, if_neg (by simp)]
    rfl
  · rw [(getBlob_eq_some_iff s.blobs .path off hdata).mpr h]
    rfl

theorem held_of_aReadWait {doSeek : Bool}
    (h : (s.aReadWait off data.length doSeek).data = data) : HeldAt s.blobs.pathByte off data := by
  by_cases hdata : data = []
  · intro i hi
    rw [hdata] at hi
    cases hi
  · rw [File.aReadWait_eq] at h
    cases hget : s.blobs.getBlob .path data.length off with
    | none =>
      rw [hget] at h
      exact absurd h.symm hdata
    | some d =>
      rw [hget] at h
      obtain rfl : d = data := h
      exact (getBlob_eq_some_iff s.blobs .path off hdata).mp hget

/-- **Asynchronous and synchronous calls agree exactly when the write changes nothing**: the pages
and the blob named as the file hold the data, and the position is where it is to go. -/
theorem agree_iff (s : File) (junk junk' : Junk) (data : Bytes) {off : Nat} (doSeek : Bool)
    (hoff : off < 2 ^ 63) (hsize : s.stat.fileSize < sizeMax) :
    Agree s junk junk' data off doSeek ↔ Already s data off doSeek := by
  have hmax : off < sizeMax := by
    unfold sizeMax
    omega
  have hoffset : s.writeOffset off < sizeMax := by
    unfold File.writeOffset
    split
    · exact hsize
    · exact hmax
  constructor
  · intro h
    have hreadable : s.stat.readable = true := by
      by_contra hnot
      have hread := h.read
      unfold File.read at hread
      rw [if_neg (Nat.ne_of_lt hmax), if_pos (by simpa using hnot), File.aReadWait_eq] at hread
      cases hget : s.blobs.getBlob .path data.length off with
      | none =>
        rw [hget] at hread
        cases congrArg ReadResult.count hread
      | some d =>
        rw [hget] at hread
        have hcount : data.length = sizeMax := congrArg ReadResult.count hread
        have hnil : d = [] := congrArg ReadResult.data hread
        rw [Blobs.getBlob_eq] at hget
        split at hget
        · have hlength := congrArg List.length (Option.some.inj hget)
          rw [List.length_take, List.length_drop, hnil, List.length_nil] at hlength
          omega
        · cases hget
    have hpages : (s.aWriteWait junk' data off doSeek).blobs.page = s.blobs.page :=
      page_putBlob_path
    -- what a read finds after the asynchronous write, it finds before it
    have hheld : ∀ off', off' < sizeMax →
        ((s.aWriteWait junk' data off doSeek).read off' data.length doSeek).2.data = data →
        HeldAt (s.blobs.pageByte s.stat.pageSize) off' data := by
      intro off' hoff' hread
      rw [(s.aWriteWait junk' data off doSeek).read_eq _ _ hoff' hreadable] at hread
      refine held_of_readLoop ?_
      rw [← readLoop_congr hpages]
      exact hread
    refine ⟨hreadable, ?_, hheld off hmax h.readBack, hheld _ hoffset ?_, ?_⟩
    · intro hseek
      have hposition := h.position
      rw [File.write_stat, hseek] at hposition
      exact hposition
    · rw [h.contents, File.read_eq _ _ _ hoffset (by rw [File.write_stat]; exact hreadable),
        File.write_blobs, File.write_stat]
      exact readLoop_of_held le_rfl (held_writeLoop le_rfl)
    · have hback := held_of_aReadWait h.aReadBack
      unfold Blobs.pathByte at hback ⊢
      rw [File.write_blobs, blob_path_writeLoop] at hback
      exact hback
  · intro h
    have hwritten : (s.write junk data off doSeek).1.blobs = s.blobs := by
      rw [File.write_blobs]
      exact writeLoop_of_held junk h.appended
    have hawaited : s.aWriteWait junk' data off doSeek = s := by
      show ({ s with blobs := s.blobs.putBlob junk' .path data off } : File) = s
      rw [putBlob_of_held junk' h.path]
    have hread : (s.read off data.length doSeek).2 = ⟨data.length, data⟩ := by
      rw [File.read_eq _ _ _ hmax h.readable, readLoop_of_held le_rfl h.pages]
    have hpath : HeldAt (s.write junk data off doSeek).1.blobs.pathByte off data := by
      rw [hwritten]
      exact h.path
    rw [← hawaited] at hread
    refine ⟨?_, ?_, ?_, ?_, ?_, ?_⟩
    · intro off' size doSeek'
      rw [hawaited]
      refine (File.read_congr hwritten ?_ ?_ off' size doSeek').symm
      · rw [File.write_stat]
      · rw [File.write_stat]
    · rw [hawaited, File.write_stat]
      cases doSeek with
      | false => rfl
      | true => exact h.position rfl
    · rw [hawaited]
      show s.blobs.tagSize = (s.write junk data off doSeek).1.blobs.tagSize
      rw [hwritten]
    · rw [aReadWait_of_held doSeek h.path]
      rw [hawaited] at hread
      exact hread.symm
    · rw [hread]
    · rw [aReadWait_of_held doSeek hpath]

def noJunk : Junk := fun _ _ => 0

/-- Two bytes, written both ways. -/
def writtenTwice : File :=
  ((File.opened ⟨4, by decide⟩).write noJunk [7, 8] 3 true).1.aWriteWait noJunk [7, 8] 3 true

theorem agree_writtenTwice : Agree writtenTwice noJunk noJunk [7, 8] 3 true := by
  refine (agree_iff writtenTwice noJunk noJunk [7, 8] true (by decide) (by decide)).mpr
    ⟨rfl, fun _ => by decide, ?_, ?_, ?_⟩
  · unfold HeldAt
    decide
  · unfold HeldAt
    decide
  · unfold HeldAt
    decide

/-- **What is written asynchronously is not read, nor the other way round, and the position
stays behind.** -/
theorem not_agree_new_file :
    ((((File.opened ⟨4, by decide⟩).aWriteWait noJunk [7, 8] 3 true).read 3 2 true).2 = ⟨0, []⟩ ∧
      (((File.opened ⟨4, by decide⟩).write noJunk [7, 8] 3 true).1.read 3 2 true).2 = ⟨2, [7, 8]⟩) ∧
    (((File.opened ⟨4, by decide⟩).aWriteWait noJunk [7, 8] 3 true).stat.stPtr = 0 ∧
      ((File.opened ⟨4, by decide⟩).write noJunk [7, 8] 3 true).1.stat.stPtr = 5) ∧
    (((File.opened ⟨4, by decide⟩).aWriteWait noJunk [7, 8] 3 true).getSize.2 = 5 ∧
      ((File.opened ⟨4, by decide⟩).write noJunk [7, 8] 3 true).1.getSize.2 = 5) ∧
    ((File.opened ⟨4, by decide⟩).write noJunk [7, 8] 3 true).1.aReadWait 3 2 true = ⟨0, []⟩ :=
  ⟨⟨by decide, by decide⟩, ⟨by decide, by decide⟩, ⟨by decide, by decide⟩, by decide⟩

end Adapter
end IowarpCore
