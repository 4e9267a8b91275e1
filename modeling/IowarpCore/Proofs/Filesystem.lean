/-
When files in page blobs behave as files of bytes.

The blobs of a tag are the pages of the file (`Holds`), and every call keeps it so.  From the
pages alone the size of the file is not known: the sum that stands for it is the size only if
no page before the last one is short (`ByteFile.Full`).  Bytes that were written are always
found where they are.  How many a read returns depends on the pages it meets: FUSE asks for
no more than the size it believes in, the adapter asks for whole pages, and the last page
refuses a read that reaches past its end.
-/
import IowarpCore.Adapter.Filesystem

namespace IowarpCore
namespace Adapter

/-! ### Blobs -/

namespace Blobs

/-- The bytes of a blob; nothing if there is none. -/
def blob (b : Blobs) (name : BlobName) : Bytes :=
  (b.find? name).getD []

def page (b : Blobs) (p : Nat) : Bytes :=
  b.blob (.page p)

variable {b : Blobs} {junk : Junk} {name : BlobName} {data : Bytes} {off size : Nat}

theorem blob_putBlob_self (hdata : data ≠ []) :
    (b.putBlob junk name data off).blob name = patch (junk name) off data (b.blob name) := by
  rw [putBlob, if_neg hdata, blob, AMap.find?_insertOrAssign_self]
  rfl

theorem blob_putBlob_of_ne {name' : BlobName} (hne : name' ≠ name) :
    (b.putBlob junk name data off).blob name' = b.blob name' := by
  unfold putBlob
  split
  · rfl
  · rw [blob, AMap.find?_insertOrAssign_of_ne _ _ hne]
    rfl

theorem page_putBlob (b : Blobs) (junk : Junk) (p off : Nat) (hdata : data ≠ []) :
    (b.putBlob junk (.page p) data off).page =
      Function.update b.page p (patch (junk (.page p)) off data (b.page p)) := by
  funext p'
  by_cases hp : p' = p
  · subst hp
    rw [Function.update_self]
    exact blob_putBlob_self hdata
  · rw [Function.update_of_ne hp]
    exact blob_putBlob_of_ne (by simpa using hp)

/-- A put changes the size of the tag by what it changes of the blob. -/
theorem tagSize_putBlob (b : Blobs) (junk : Junk) (name : BlobName) (off : Nat) (hdata : data ≠ []) :
    (b.putBlob junk name data off).tagSize + (b.blob name).length =
      b.tagSize + (patch (junk name) off data (b.blob name)).length := by
  unfold putBlob tagSize
  rw [if_neg hdata, ((AMap.insertOrAssign_perm b name _).map fun e => e.2.length).sum_nat,
    List.map_cons, List.sum_cons]
  cases hfind : b.find? name with
  | none =>
    rw [AMap.erase_entries_of_find_none hfind, blob, hfind]
    simp only [Option.getD_none, List.length_nil]
    omega
  | some v =>
    rw [((AMap.entries_perm_of_find hfind).map fun e => e.2.length).sum_nat, List.map_cons,
      List.sum_cons, blob, hfind]
    simp only [Option.getD_some]
    omega

theorem getBlob_eq (b : Blobs) (name : BlobName) (size off : Nat) :
    b.getBlob name size off =
      if 0 < size ∧ off + size ≤ (b.blob name).length then
        some (((b.blob name).drop off).take size)
      else none := by
  unfold getBlob blob
  cases hfind : b.find? name with
  | some v => rfl
  | none =>
    rw [Option.bind_none, if_neg]
    simp only [Option.getD_none, List.length_nil]
    omega

end Blobs

/-! ### Writing -/

/-- The blobs are the pages of the file. -/
structure Holds (ps : PageSize) (b : Blobs) (f : ByteFile) : Prop where
  paged : Paged ps.bytes b.page f
  counted : ∀ N, f.size ≤ N * ps.bytes → b.tagSize = ∑ p ∈ Finset.range N, (b.page p).length

variable {ps : PageSize} {b : Blobs} {f : ByteFile}

theorem holds_empty (ps : PageSize) : Holds ps AMap.empty ByteFile.empty where
  paged := Paged.empty ps.bytes
  counted N _ := by
    have hnone : ∀ p, (Blobs.page AMap.empty p).length = 0 := fun _ => rfl
    simp only [hnone, Finset.sum_const_zero]
    rfl

/-- **A put inside one page.** -/
theorem Holds.putBlob (h : Holds ps b f) (junk : Junk) {off : Nat} {data : Bytes}
    (hdata : data ≠ []) (hroom : off % ps.bytes + data.length ≤ ps.bytes) :
    Holds ps (b.putBlob junk (.page (off / ps.bytes)) data (off % ps.bytes)) (f.write off data) := by
  have hpage := b.page_putBlob junk (off / ps.bytes) (off % ps.bytes) hdata
  refine ⟨?_, ?_⟩
  · rw [hpage]
    exact h.paged.write _ hdata hroom
  · intro N hN
    rw [ByteFile.size_write hdata] at hN
    have hpos : 0 < data.length := List.length_pos_iff.mpr hdata
    have hp : off / ps.bytes ∈ Finset.range N := by
      rw [Finset.mem_range, Nat.div_lt_iff_lt_mul ps.pos]
      omega
    have htag := b.tagSize_putBlob junk (.page (off / ps.bytes)) (off % ps.bytes) hdata
    have hbefore := h.counted N (by omega)
    have hsplit := Finset.add_sum_erase (Finset.range N) (fun p => (b.page p).length) hp
    have hafter : ∑ p ∈ Finset.range N,
        ((b.putBlob junk (.page (off / ps.bytes)) data (off % ps.bytes)).page p).length =
        (patch (junk (.page (off / ps.bytes))) (off % ps.bytes) data
          (b.page (off / ps.bytes))).length +
          ∑ p ∈ (Finset.range N).erase (off / ps.bytes), (b.page p).length := by
      rw [hpage, ← Finset.add_sum_erase _ _ hp, Function.update_self]
      refine congrArg _ (Finset.sum_congr rfl fun p hp' => ?_)
      rw [Function.update_of_ne (Finset.ne_of_mem_erase hp')]
    rw [hafter]
    unfold Blobs.page at *
    omega

/-- **The loop writes the data**, page by page. -/
theorem Holds.writeLoop (junk : Junk) {fuel : Nat} (h : Holds ps b f) {off : Nat} {data : Bytes}
    (hfuel : data.length ≤ fuel) :
    Holds ps (b.writeLoop ps junk fuel off data) (f.write off data) := by
  induction fuel generalizing b f off data with
  | zero =>
    have hnil : data = [] := List.eq_nil_of_length_eq_zero (by omega)
    rw [hnil, ByteFile.write_nil]
    exact h
  | succ fuel ih =>
    unfold Blobs.writeLoop
    split
    · rename_i hnil
      rw [hnil, ByteFile.write_nil]
      exact h
    · rename_i hdata
      dsimp only
      have hpos : 0 < data.length := List.length_pos_iff.mpr hdata
      have hmod := Nat.mod_lt off ps.pos
      generalize hn : min (ps.bytes - off % ps.bytes) data.length = n
      have htake : (data.take n).length = n := by
        rw [List.length_take]
        omega
      have hfirst : data.take n ≠ [] := List.ne_nil_of_length_pos (by omega)
      have hput : Holds ps _ (f.write off (data.take n)) := h.putBlob junk hfirst (by omega)
      have hfewer : (data.drop n).length ≤ fuel := by
        rw [List.length_drop]
        omega
      have hall : f.write off data = (f.write off (data.take n)).write (off + n) (data.drop n) := by
        conv_lhs => rw [← List.take_append_drop n data]
        rw [ByteFile.write_append, htake]
      rw [hall]
      exact ih hput hfewer

/-! ### Reading -/

/-- The bytes that a read returns are those of the pages. -/
theorem readLoop_getElem? (ps : PageSize) (b : Blobs) (fuel off size : Nat) {i : Nat}
    (hi : i < (b.readLoop ps fuel off size).1.length) :
    (b.readLoop ps fuel off size).1[i]? =
      (b.page ((off + i) / ps.bytes))[(off + i) % ps.bytes]? := by
  induction fuel generalizing off size i with
  | zero => cases hi
  | succ fuel ih =>
    unfold Blobs.readLoop at hi ⊢
    split at hi
    · cases hi
    rename_i hsize
    rw [if_neg hsize]
    have hmod := Nat.mod_lt off ps.pos
    dsimp only at hi ⊢
    generalize hn : min (ps.bytes - off % ps.bytes) size = n at hi ⊢
    rw [Blobs.getBlob_eq] at hi ⊢
    split at hi
    · cases hi
    · rename_i d hd
      dsimp only at hi ⊢
      split at hd
      · rename_i hfits
        obtain rfl := Option.some.inj hd
        have hlength : (((b.blob (.page (off / ps.bytes))).drop (off % ps.bytes)).take n).length =
            n := by
          rw [List.length_take, List.length_drop]
          omega
        by_cases hin : i < n
        · obtain ⟨hdiv, hmod'⟩ := div_mod_of_room (a := off) (c := ps.bytes) (j := i) (by omega)
          rw [List.getElem?_append_left (by omega), List.getElem?_take_of_lt hin,
            List.getElem?_drop, hdiv, hmod']
          rfl
        · rw [List.length_append, hlength] at hi
          rw [List.getElem?_append_right (by omega), hlength, ih _ _ (by omega)]
          rw [show off + n + (i - n) = off + i by omega]
      · cases hd

/-- **How many bytes a read returns of a full file**: all of them, or those before the page that
it asks too much of. -/
theorem Holds.length_readLoop (h : Holds ps b f) (hfull : f.Full ps.bytes) {fuel off size : Nat}
    (hfuel : size ≤ fuel) :
    (b.readLoop ps fuel off size).1.length =
      if off + size ≤ f.size then size else f.size / ps.bytes * ps.bytes - off := by
  induction fuel generalizing off size with
  | zero =>
    obtain rfl : size = 0 := by omega
    have hdiv := Nat.div_mul_le_self f.size ps.bytes
    split
    · rfl
    · show 0 = _
      omega
  | succ fuel ih =>
    have hdiv := Nat.div_mul_le_self f.size ps.bytes
    unfold Blobs.readLoop
    split
    · rename_i hsize
      subst hsize
      split
      · rfl
      · show 0 = _
        omega
    · rename_i hsize
      dsimp only
      have hmod := Nat.mod_lt off ps.pos
      have hoff := Nat.div_add_mod' off ps.bytes
      generalize hn : min (ps.bytes - off % ps.bytes) size = n
      have hpage : (b.blob (.page (off / ps.bytes))).length =
          min ps.bytes (f.size - off / ps.bytes * ps.bytes) :=
        h.paged.length_page ps.pos hfull (off / ps.bytes)
      rw [Blobs.getBlob_eq]
      by_cases hfits : off + n ≤ f.size
      · rw [if_pos ⟨by omega, by omega⟩]
        dsimp only
        rw [List.length_append, ih (by omega), List.length_take, List.length_drop]
        split_ifs with hrest hall hall
        · omega
        · omega
        · omega
        · -- the next page starts inside the file
          have hnext : off / ps.bytes + 1 ≤ f.size / ps.bytes := by
            rw [Nat.le_div_iff_mul_le ps.pos, Nat.succ_mul]
            omega
          have hmul := Nat.mul_le_mul_right ps.bytes hnext
          rw [Nat.succ_mul] at hmul
          omega
      · rw [if_neg (by omega), if_neg (by omega)]
        have hlast : f.size / ps.bytes ≤ off / ps.bytes := by
          rw [← Nat.lt_succ_iff, Nat.div_lt_iff_lt_mul ps.pos, Nat.succ_mul]
          omega
        have hmul := Nat.mul_le_mul_right ps.bytes hlast
        show 0 = _
        omega

/-! ### Calls -/

/-- The bytes that the call reports as written. -/
def WriteCall.written (w : WriteCall) : Bytes :=
  match w.via with
  | .adapter => w.data
  | .fuse => if w.data.length > intMax then w.data.take intMax else w.data

/-- The file of bytes after a call. -/
def ByteFile.call (f : ByteFile) : Call → ByteFile
  | .write w => f.write w.off w.written
  | .read _ => f

/-- The file of bytes after a sequence of calls. -/
def byteFile (calls : List Call) : ByteFile :=
  calls.foldl ByteFile.call .empty

theorem WriteCall.length_written_le (w : WriteCall) : w.written.length ≤ w.data.length := by
  unfold WriteCall.written
  split
  · exact le_rfl
  · split
    · rw [List.length_take]
      exact Nat.min_le_right _ _
    · exact le_rfl

/-- An open file that is not in append mode, and what it holds. -/
structure Open (ps : PageSize) (s : File) (f : ByteFile) : Prop where
  pageSize : s.stat.pageSize = ps
  readable : s.stat.readable = true
  stPtr : s.stat.stPtr < sizeMax
  holds : Holds ps s.blobs f
  size : f.size < sizeMax

theorem File.seekTo_cases (s : File) (doSeek : Bool) (ptr : Nat) :
    s.seekTo doSeek ptr = s ∨ s.seekTo doSeek ptr = { s with stat := { s.stat with stPtr := ptr } } := by
  cases doSeek with
  | false => exact Or.inl rfl
  | true => exact Or.inr rfl

variable {s : File}

theorem Open.seekTo (h : Open ps s f) (doSeek : Bool) {ptr : Nat} (hptr : ptr < sizeMax) :
    Open ps (s.seekTo doSeek ptr) f := by
  rcases s.seekTo_cases doSeek ptr with hstay | hmove
  · rw [hstay]
    exact h
  · rw [hmove]
    exact ⟨h.pageSize, h.readable, hptr, h.holds, h.size⟩

/-- **A write, through either front end.** -/
theorem Open.writeVia (h : Open ps s f) (w : WriteCall) :
    Open ps (s.writeVia w).1 (f.write w.off w.written) ∧ (s.writeVia w).2 = w.written.length := by
  have hlength := w.length_written_le
  have hoff := w.off_lt
  have hsize := w.size_lt
  have hend : w.off + w.data.length < sizeMax := by
    unfold sizeMax
    omega
  have hwithin : (f.write w.off w.written).size < sizeMax := by
    have := h.size
    unfold ByteFile.write
    dsimp only
    split
    · exact this
    · omega
  unfold File.writeVia
  cases hvia : w.via with
  | adapter =>
    have hwritten : w.written = w.data := by rw [WriteCall.written, hvia]
    rw [hwritten] at hwithin ⊢
    refine ⟨?_, rfl⟩
    show Open ps (s.write w.junk w.data w.off w.doSeek).1 _
    unfold File.write
    dsimp only
    rw [if_neg (Nat.ne_of_lt h.stPtr), h.pageSize]
    have hopen : Open ps
        { s with blobs := s.blobs.writeLoop ps w.junk w.data.length w.off w.data }
        (f.write w.off w.data) :=
      ⟨h.pageSize, h.readable, h.stPtr, h.holds.writeLoop w.junk le_rfl, hwithin⟩
    exact hopen.seekTo w.doSeek hend
  | fuse =>
    have hwritten : w.written = if w.data.length > intMax then w.data.take intMax else w.data := by
      rw [WriteCall.written, hvia]
    unfold fuseWrite
    rw [← hwritten, h.pageSize]
    exact ⟨⟨h.pageSize, h.readable, h.stPtr, h.holds.writeLoop w.junk le_rfl, hwithin⟩, rfl⟩

/-- What a read of the adapter returns. -/
theorem File.read_eq (s : File) {off : Nat} (size : Nat) (doSeek : Bool) (hoff : off < sizeMax)
    (hread : s.stat.readable = true) :
    (s.read off size doSeek).2 =
      ⟨(s.blobs.readLoop s.stat.pageSize size off size).1.length,
        (s.blobs.readLoop s.stat.pageSize size off size).1⟩ := by
  unfold File.read
  rw [if_neg (Nat.ne_of_lt hoff), hread, if_neg (by simp)]
  split
  · rename_i hzero
    rw [hzero]
    rfl
  · rfl

theorem Open.read (h : Open ps s f) {off size : Nat} (hoff : off < sizeMax) (doSeek : Bool) :
    (s.read off size doSeek).2 =
      ⟨(s.blobs.readLoop ps size off size).1.length, (s.blobs.readLoop ps size off size).1⟩ := by
  rw [← h.pageSize]
  exact s.read_eq size doSeek hoff h.readable

theorem length_readLoop_le (b : Blobs) (ps : PageSize) (fuel off size : Nat) :
    (b.readLoop ps fuel off size).1.length ≤ size := by
  induction fuel generalizing off size with
  | zero => exact Nat.zero_le _
  | succ fuel ih =>
    unfold Blobs.readLoop
    split
    · exact Nat.zero_le _
    · dsimp only
      generalize hn : min (ps.bytes - off % ps.bytes) size = n
      rw [Blobs.getBlob_eq]
      split
      · exact Nat.zero_le _
      · rename_i d hd
        split at hd
        · obtain rfl := Option.some.inj hd
          have := ih (off + n) (size - n)
          rw [List.length_append, List.length_take]
          omega
        · cases hd

/-- A read changes the position at most. -/
theorem Open.readVia (h : Open ps s f) (r : ReadCall) :
    Open ps (s.readVia r.via r.off r.size r.doSeek).1 f := by
  have hoff := r.off_lt
  have hsize := r.size_lt
  unfold File.readVia
  cases r.via with
  | fuse => exact h
  | adapter =>
    show Open ps (s.read r.off r.size r.doSeek).1 f
    unfold File.read
    split
    · exact h
    split
    · exact h
    split
    · exact h
    · dsimp only
      split
      · refine h.seekTo r.doSeek ?_
        have := length_readLoop_le s.blobs s.stat.pageSize r.size r.off r.size
        unfold sizeMax
        omega
      · exact h

/-- **Every sequence of calls keeps the file in its pages.** -/
theorem open_calls (ps : PageSize) (calls : List Call) :
    Open ps (calls.foldl File.call (.opened ps)) (byteFile calls) := by
  have hrun : ∀ (calls : List Call) (s : File) (f : ByteFile), Open ps s f →
      Open ps (calls.foldl File.call s) (calls.foldl ByteFile.call f) := by
    intro calls
    induction calls with
    | nil => exact fun s f h => h
    | cons call calls ih =>
      intro s f h
      cases call with
      | write w => exact ih _ _ (h.writeVia w).1
      | read r => exact ih _ _ (h.readVia r)
  have hpos : 0 < sizeMax := by decide
  exact hrun calls _ _ ⟨rfl, rfl, hpos, holds_empty ps, hpos⟩

/-! ### The refinement -/

/-- The file behaves as the file of bytes, as far as its size, its written bytes and one read
show. -/
structure Behaves (s : File) (f : ByteFile) (r : ReadCall) : Prop where
  getSize : s.getSize.2 = f.size
  getattr : fuseSize s.blobs = f.size
  /-- Every byte that was written reads back. -/
  back : ∀ x byte, f.byte x = some byte → ∀ doSeek,
    (s.readVia r.via x 1 doSeek).2 = ⟨1, [byte]⟩
  /-- The bytes that the read returns are those that were written. -/
  content : ∀ i byte, f.byte (r.off + i) = some byte →
    i < (s.readVia r.via r.off r.size r.doSeek).2.count →
    (s.readVia r.via r.off r.size r.doSeek).2.data[i]? = some byte
  count : r.off < f.size →
    (s.readVia r.via r.off r.size r.doSeek).2.count = min r.size (f.size - r.off)

/-- The read asks for nothing that its front end refuses: the adapter ends inside the file or the
file ends with a page, and FUSE returns no more than an `int` can count. -/
def ReadCall.Fits (r : ReadCall) (ps : PageSize) (size : Nat) : Prop :=
  match r.via with
  | .adapter => r.off + r.size ≤ size ∨ ps.bytes ∣ size
  | .fuse => min r.size (size - r.off) ≤ intMax

theorem Open.tagSize_eq_iff (h : Open ps s f) :
    s.blobs.tagSize = f.size ↔ f.Full ps.bytes := by
  have hN : f.size ≤ f.size * ps.bytes := Nat.le_mul_of_pos_right _ ps.pos
  rw [h.holds.counted f.size hN]
  exact h.holds.paged.sum_eq_size_iff ps.pos hN

/-- The pages have the bytes that a loop returns. -/
theorem Open.readLoop_content (h : Open ps s f) {fuel off size i : Nat} {byte : UInt8}
    (hbyte : f.byte (off + i) = some byte)
    (hi : i < (s.blobs.readLoop ps fuel off size).1.length) :
    (s.blobs.readLoop ps fuel off size).1[i]? = some byte := by
  rw [readLoop_getElem? ps s.blobs fuel off size hi]
  exact h.holds.paged.content _ _ hbyte

/-- What FUSE reads of a full file. -/
theorem Open.fuseRead (h : Open ps s f) (hfull : f.Full ps.bytes) (off size : Nat) :
    ∃ data, fuseRead s.stat.pageSize s.blobs size off = ⟨data.length, data⟩ ∧
      data.length = min (min size intMax) (f.size - off) ∧
      ∀ i byte, f.byte (off + i) = some byte → i < data.length → data[i]? = some byte := by
  have hsize := h.tagSize_eq_iff.mpr hfull
  have hclamp : (if size > intMax then intMax else size) = min size intMax := by
    split <;> omega
  unfold Adapter.fuseRead
  rw [hclamp, hsize, h.pageSize]
  dsimp only
  split
  · refine ⟨[], rfl, ?_, fun i byte _ hi => absurd hi (by simp)⟩
    show 0 = _
    omega
  · rename_i hinside
    have hasked : (if off + min size intMax > f.size then f.size - off else min size intMax) =
        min (min size intMax) (f.size - off) := by
      split <;> omega
    rw [hasked]
    refine ⟨_, rfl, ?_, fun i byte hbyte hi => h.readLoop_content hbyte hi⟩
    rw [h.holds.length_readLoop hfull le_rfl, if_pos (by omega)]

/-- How many bytes the adapter reads of a full file. -/
theorem Open.read_count_iff (h : Open ps s f) (hfull : f.Full ps.bytes) {off size : Nat}
    (hoff : off < f.size) (doSeek : Bool) :
    (s.read off size doSeek).2.count = min size (f.size - off) ↔
      off + size ≤ f.size ∨ ps.bytes ∣ f.size := by
  rw [h.read (lt_trans hoff h.size) doSeek]
  dsimp only
  rw [h.holds.length_readLoop hfull le_rfl]
  have hle := Nat.div_mul_le_self f.size ps.bytes
  constructor
  · intro hcount
    by_cases hin : off + size ≤ f.size
    · exact Or.inl hin
    · rw [if_neg hin] at hcount
      refine Or.inr ⟨f.size / ps.bytes, ?_⟩
      rw [Nat.mul_comm]
      omega
  · rintro (hin | hdvd)
    · rw [if_pos hin]
      omega
    · rw [Nat.div_mul_cancel hdvd]
      split <;> omega

/-- A byte that was written, alone. -/
theorem Open.back (h : Open ps s f) (hfull : f.Full ps.bytes) (via : FrontEnd) {x : Nat}
    {byte : UInt8} (hbyte : f.byte x = some byte) (doSeek : Bool) :
    (s.readVia via x 1 doSeek).2 = ⟨1, [byte]⟩ := by
  have hx : x < f.size := f.bound x (by rw [hbyte]; rfl)
  have hsingle : ∀ data : Bytes, data.length = 1 → data[0]? = some byte → data = [byte] := by
    intro data hlength hfirst
    obtain ⟨a, rfl⟩ := List.length_eq_one_iff.mp hlength
    exact congrArg (· :: []) (Option.some.inj hfirst)
  cases via with
  | adapter =>
    show (s.read x 1 doSeek).2 = _
    rw [h.read (lt_trans hx h.size) doSeek]
    have hlength : (s.blobs.readLoop ps 1 x 1).1.length = 1 := by
      rw [h.holds.length_readLoop hfull le_rfl, if_pos (by omega)]
    rw [hlength, hsingle _ hlength (h.readLoop_content hbyte (by omega))]
  | fuse =>
    show Adapter.fuseRead s.stat.pageSize s.blobs 1 x = _
    obtain ⟨data, hread, hlength, hcontent⟩ := h.fuseRead hfull x 1
    have hone : data.length = 1 := by
      rw [hlength, show min 1 intMax = 1 from rfl]
      omega
    rw [hread, hone, hsingle data hone (hcontent 0 byte hbyte (by omega))]

/-- **Files over page blobs behave as files of bytes exactly when** the byte before every page
boundary inside the file was written, and the read asks for nothing that its front end
refuses. -/
theorem behaves_iff (ps : PageSize) (calls : List Call) (r : ReadCall) :
    Behaves (calls.foldl File.call (.opened ps)) (byteFile calls) r ↔
      (byteFile calls).Full ps.bytes ∧
        (r.off < (byteFile calls).size → r.Fits ps (byteFile calls).size) := by
  have h := open_calls ps calls
  generalize calls.foldl File.call (.opened ps) = s at h ⊢
  generalize byteFile calls = f at h ⊢
  have hfuse : ∀ data : Bytes, r.off < f.size →
      data.length = min (min r.size intMax) (f.size - r.off) →
      (data.length = min r.size (f.size - r.off) ↔ min r.size (f.size - r.off) ≤ intMax) := by
    intro data hoff hlength
    omega
  constructor
  · intro hbehaves
    have hfull := h.tagSize_eq_iff.mp hbehaves.getattr
    refine ⟨hfull, fun hoff => ?_⟩
    have hcount := hbehaves.count hoff
    unfold ReadCall.Fits
    unfold File.readVia at hcount
    cases hvia : r.via with
    | adapter =>
      rw [hvia] at hcount
      exact (h.read_count_iff hfull hoff r.doSeek).mp hcount
    | fuse =>
      rw [hvia] at hcount
      obtain ⟨data, hread, hlength, -⟩ := h.fuseRead hfull r.off r.size
      dsimp only at hcount
      rw [hread] at hcount
      exact (hfuse data hoff hlength).mp hcount
  · rintro ⟨hfull, hfits⟩
    have hsize := h.tagSize_eq_iff.mpr hfull
    refine ⟨hsize, hsize, fun x byte hbyte doSeek => h.back hfull r.via hbyte doSeek, ?_, ?_⟩
    · intro i byte hbyte hi
      unfold File.readVia at hi ⊢
      cases hvia : r.via with
      | adapter =>
        rw [hvia] at hi
        have hoff : r.off < sizeMax := by
          have := r.off_lt
          unfold sizeMax
          omega
        dsimp only at hi ⊢
        rw [h.read hoff r.doSeek] at hi ⊢
        exact h.readLoop_content hbyte hi
      | fuse =>
        rw [hvia] at hi
        obtain ⟨data, hread, -, hcontent⟩ := h.fuseRead hfull r.off r.size
        dsimp only at hi ⊢
        rw [hread] at hi ⊢
        exact hcontent i byte hbyte hi
    · intro hoff
      have hfit := hfits hoff
      unfold ReadCall.Fits at hfit
      unfold File.readVia
      cases hvia : r.via with
      | adapter =>
        rw [hvia] at hfit
        exact (h.read_count_iff hfull hoff r.doSeek).mpr hfit
      | fuse =>
        rw [hvia] at hfit
        obtain ⟨data, hread, hlength, -⟩ := h.fuseRead hfull r.off r.size
        dsimp only
        rw [hread]
        exact (hfuse data hoff hlength).mpr hfit

/-- One byte at offset 8, in pages of four bytes. -/
def sparseWrite : List Call :=
  [.write ⟨.adapter, 8, [7], true, fun _ _ => 0, by decide, by decide⟩]

/-- Five bytes in pages of four bytes, to be read with a buffer of eight. -/
def shortPage : List Call :=
  [.write ⟨.adapter, 0, [1, 2, 3, 4, 5], true, fun _ _ => 0, by decide, by decide⟩]

/-- **The size of a sparse file is too small, and FUSE does not find its byte; a read over the
end of a file returns only whole pages.** -/
theorem not_behaves_sparse_or_short :
    ((byteFile sparseWrite).size = 9 ∧
      (sparseWrite.foldl File.call (.opened ⟨4, by decide⟩)).getSize.2 = 1 ∧
      ((sparseWrite.foldl File.call (.opened ⟨4, by decide⟩)).readVia .fuse 8 1 true).2 = ⟨0, []⟩) ∧
    (byteFile shortPage).size = 5 ∧
      ((shortPage.foldl File.call (.opened ⟨4, by decide⟩)).readVia .adapter 0 8 true).2 =
        ⟨4, [1, 2, 3, 4]⟩ :=
  ⟨⟨by decide, by decide, by decide⟩, by decide, by decide⟩

end Adapter
end IowarpCore
