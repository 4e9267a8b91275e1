/-
The positions of an open file.

`Tell` and `Write` agree on where the file is (`writeStart_eq_tell`), so a position is right or
wrong for two reasons only.  One is the end of the file: `Write` in append mode and `Seek` from
the end take it from `file_size_`, which the writes before them have not moved, and append mode
is over once the position is set.  The other is a call that stops in the middle: it returns
what it has transferred and leaves the position where it was.
-/
import IowarpCore.Adapter.Positions
import IowarpCore.Lib.Along
import IowarpCore.Proofs.Filesystem

namespace IowarpCore
namespace Adapter

/-! ### The end of a file -/

/-- Where the bytes of a blob end in the file. -/
def pageEnd (ps : PageSize) (e : BlobName × Bytes) : Nat :=
  match e.1 with
  | .page p => if e.2 = [] then 0 else p * ps.bytes + e.2.length
  | .path => 0

/-- Where the last page ends. -/
def Blobs.fileEnd (ps : PageSize) (b : Blobs) : Nat :=
  (b.entries.map (pageEnd ps)).foldr max 0

variable {ps : PageSize} {b : Blobs} {f : ByteFile}

/-! ### Loops that stop -/

/-- The byte is in its page. -/
def Blobs.Stored (ps : PageSize) (b : Blobs) (x : Nat) : Prop :=
  x % ps.bytes < (b.page (x / ps.bytes)).length

/-- The first piece of a range: what of it is in its first page. -/
def firstPiece (ps : PageSize) (off size : Nat) : Nat := min (ps.bytes - off % ps.bytes) size

variable {size fuel : Nat}

theorem firstPiece_pos (ps : PageSize) (off : Nat) (hsize : 0 < size) :
    0 < firstPiece ps off size := by
  have hmod := Nat.mod_lt off ps.pos
  unfold firstPiece
  omega

theorem firstPiece_le (ps : PageSize) (off size : Nat) : firstPiece ps off size ≤ size :=
  Nat.min_le_right _ _

/-- Positions in the first piece of a range. -/
theorem div_mod_firstPiece (ps : PageSize) (off size : Nat) {i : Nat} (hi : i < firstPiece ps off size) :
    (off + i) / ps.bytes = off / ps.bytes ∧ (off + i) % ps.bytes = off % ps.bytes + i := by
  have hmod := Nat.mod_lt off ps.pos
  unfold firstPiece at hi
  exact div_mod_of_room (by omega)

/-- The blob has the piece if it has the last byte of it. -/
theorem getBlob_firstPiece_isSome_iff (b : Blobs) (off : Nat) (hsize : 0 < size) :
    (b.getBlob (.page (off / ps.bytes)) (firstPiece ps off size) (off % ps.bytes)).isSome = true ↔
      b.Stored ps (off + (firstPiece ps off size - 1)) := by
  have hpos := firstPiece_pos ps off hsize
  obtain ⟨hdiv, hmod⟩ := div_mod_firstPiece ps off size
    (i := firstPiece ps off size - 1) (by omega)
  rw [Blobs.getBlob_eq, Blobs.Stored, hdiv, hmod, Blobs.page]
  split
  · simp only [Option.isSome_some, true_iff]
    omega
  · simp only [Option.isSome_none, Bool.false_eq_true, false_iff]
    omega

/-- A range is stored if its first piece and its rest are. -/
theorem stored_split (b : Blobs) (off : Nat) (hsize : 0 < size) :
    (∀ i < size, b.Stored ps (off + i)) ↔
      b.Stored ps (off + (firstPiece ps off size - 1)) ∧
        ∀ i < size - firstPiece ps off size, b.Stored ps (off + firstPiece ps off size + i) := by
  have hpos := firstPiece_pos ps off hsize
  have hle := firstPiece_le ps off size
  constructor
  · intro h
    refine ⟨h _ (by omega), fun i hi => ?_⟩
    rw [Nat.add_assoc]
    exact h _ (by omega)
  · rintro ⟨hlast, hrest⟩ i hi
    by_cases hin : i < firstPiece ps off size
    · obtain ⟨hdiv, hmod⟩ := div_mod_firstPiece ps off size hin
      obtain ⟨hdiv', hmod'⟩ := div_mod_firstPiece ps off size
        (i := firstPiece ps off size - 1) (by omega)
      unfold Blobs.Stored at hlast ⊢
      rw [hdiv', hmod'] at hlast
      rw [hdiv, hmod]
      omega
    · have h := hrest (i - firstPiece ps off size) (by omega)
      rwa [show off + firstPiece ps off size + (i - firstPiece ps off size) = off + i by omega] at h

theorem readLoop_succ (b : Blobs) (fuel off : Nat) (hsize : 0 < size) :
    b.readLoop ps (fuel + 1) off size =
      match b.getBlob (.page (off / ps.bytes)) (firstPiece ps off size) (off % ps.bytes) with
      | none => ([], false)
      | some data =>
        (data ++ (b.readLoop ps fuel (off + firstPiece ps off size)
            (size - firstPiece ps off size)).1,
          (b.readLoop ps fuel (off + firstPiece ps off size) (size - firstPiece ps off size)).2) := by
  rw [Blobs.readLoop, if_neg (Nat.ne_of_gt hsize)]
  rfl

/-- A read comes to its end if all its bytes are stored. -/
theorem readLoop_done_iff (b : Blobs) {off : Nat} (hfuel : size ≤ fuel) :
    (b.readLoop ps fuel off size).2 = true ↔ ∀ i < size, b.Stored ps (off + i) := by
  induction fuel generalizing off size with
  | zero =>
    obtain rfl : size = 0 := by omega
    simp [Blobs.readLoop]
  | succ fuel ih =>
    by_cases hzero : size = 0
    · subst hzero
      simp [Blobs.readLoop]
    · have hsize : 0 < size := Nat.pos_of_ne_zero hzero
      have hpos := firstPiece_pos ps off hsize
      rw [readLoop_succ b fuel off hsize, stored_split b off hsize, ← ih (by omega),
        ← getBlob_firstPiece_isSome_iff b off hsize]
      cases b.getBlob (.page (off / ps.bytes)) (firstPiece ps off size) (off % ps.bytes) <;> simp

/-- A read returns nothing if the first piece is not there. -/
theorem readLoop_eq_nil_iff (b : Blobs) {off : Nat} (hsize : 0 < size) (hfuel : size ≤ fuel) :
    (b.readLoop ps fuel off size).1 = [] ↔ ¬ b.Stored ps (off + (firstPiece ps off size - 1)) := by
  obtain ⟨fuel, rfl⟩ := Nat.exists_eq_succ_of_ne_zero (show fuel ≠ 0 by omega)
  have hpos := firstPiece_pos ps off hsize
  rw [readLoop_succ b fuel off hsize, ← getBlob_firstPiece_isSome_iff b off hsize]
  rw [Blobs.getBlob_eq]
  split
  · rename_i hnone
    rw [hnone]
    simp
  · rename_i data hdata
    rw [hdata]
    split at hdata
    · rename_i hfits
      obtain rfl := Option.some.inj hdata
      have hlength : (((b.blob (.page (off / ps.bytes))).drop (off % ps.bytes)).take
          (firstPiece ps off size)).length = firstPiece ps off size := by
        rw [List.length_take, List.length_drop]
        omega
      simp only [List.append_eq_nil_iff, Option.isSome_some, not_true_eq_false, iff_false]
      intro hnil
      rw [hnil.1] at hlength
      simp only [List.length_nil] at hlength
      omega
    · cases hdata

/-- In how many pieces a range is written. -/
def pieces (ps : PageSize) (off size : Nat) : Nat :=
  if size = 0 then 0 else (off + size - 1) / ps.bytes - off / ps.bytes + 1

theorem pieces_succ (off : Nat) (hsize : 0 < size) :
    pieces ps off size =
      pieces ps (off + firstPiece ps off size) (size - firstPiece ps off size) + 1 := by
  have hmod := Nat.mod_lt off ps.pos
  have hsplit := Nat.div_add_mod' off ps.bytes
  have hpos := firstPiece_pos ps off hsize
  rw [pieces, if_neg (Nat.ne_of_gt hsize), pieces]
  by_cases hone : firstPiece ps off size = size
  · rw [if_pos (by omega)]
    obtain ⟨hdiv, -⟩ := div_mod_firstPiece ps off size (i := size - 1)
      (by omega)
    rw [show off + size - 1 = off + (size - 1) by omega, hdiv]
    omega
  · have hpage : firstPiece ps off size = ps.bytes - off % ps.bytes := by
      unfold firstPiece at hone ⊢
      omega
    have hnext : (off + firstPiece ps off size) / ps.bytes = off / ps.bytes + 1 := by
      rw [show off + firstPiece ps off size = (off / ps.bytes + 1) * ps.bytes by
        rw [Nat.succ_mul]
        omega]
      exact Nat.mul_div_cancel _ ps.pos
    have hle := firstPiece_le ps off size
    rw [if_neg (by omega), hnext,
      show off + firstPiece ps off size + (size - firstPiece ps off size) - 1 = off + size - 1 by omega]
    have hlast : off / ps.bytes + 1 ≤ (off + size - 1) / ps.bytes := by
      rw [← hnext]
      exact Nat.div_le_div_right (by omega)
    omega

variable {junk : Junk} {puts : Nat → Bool} {data : Bytes} {k off : Nat}

/-- A write comes to its end if all its puts are accepted. -/
theorem putLoop_done_iff (b : Blobs) (hfuel : data.length ≤ fuel) :
    (b.putLoop ps junk puts fuel k off data).2.2 = true ↔
      ∀ j < pieces ps off data.length, puts (k + j) = true := by
  induction fuel generalizing b k off data with
  | zero =>
    have hzero : data.length = 0 := by omega
    simp [Blobs.putLoop, pieces, hzero]
  | succ fuel ih =>
    by_cases hdata : data = []
    · subst hdata
      simp [Blobs.putLoop, pieces]
    · have hsize : 0 < data.length := List.length_pos_iff.mpr hdata
      have hpos := firstPiece_pos ps off hsize
      have hle := firstPiece_le ps off data.length
      rw [Blobs.putLoop, if_neg hdata, pieces_succ off hsize]
      by_cases hput : puts k = true
      · rw [if_pos hput]
        dsimp only
        rw [ih _ (by rw [List.length_drop]; unfold firstPiece at hpos; omega), List.length_drop]
        constructor
        · intro h j hj
          cases j with
          | zero => exact hput
          | succ j =>
            have hrest := h j (Nat.lt_of_succ_lt_succ hj)
            rwa [Nat.add_assoc, Nat.add_comm 1 j] at hrest
        · intro h j hj
          have hrest := h (j + 1) (Nat.succ_lt_succ hj)
          rwa [Nat.add_comm j 1, ← Nat.add_assoc] at hrest
      · rw [if_neg hput]
        simp only [Bool.false_eq_true, false_iff, not_forall]
        exact ⟨0, Nat.succ_pos _, hput⟩

/-- A write that stops has written something if its first put was accepted. -/
theorem putLoop_written (b : Blobs) (hdata : data ≠ []) (hfuel : data.length ≤ fuel) :
    (b.putLoop ps junk puts fuel k off data).2.1 = 0 ↔ puts k = false := by
  have hsize : 0 < data.length := List.length_pos_iff.mpr hdata
  obtain ⟨fuel, rfl⟩ := Nat.exists_eq_succ_of_ne_zero (show fuel ≠ 0 by omega)
  have hpos := firstPiece_pos ps off hsize
  unfold firstPiece at hpos
  rw [Blobs.putLoop, if_neg hdata]
  by_cases hput : puts k = true
  · rw [if_pos hput, hput]
    simp only [Bool.true_eq_false, iff_false]
    omega
  · rw [if_neg hput]
    simpa using hput

/-! ### The laws -/

namespace Handle

variable (h : Handle)

/-- Where the file ends. -/
def fileEnd : Nat := h.file.blobs.fileEnd h.file.stat.pageSize

/-- The position is at the end of the file: the cached size stands for it in append mode. -/
def AtEnd : Prop :=
  if h.file.stat.stPtr = sizeMax then h.file.stat.fileSize = h.fileEnd
  else h.file.stat.stPtr = h.fileEnd

/-- What a call is allowed to be: its numbers fit their types, and positions stay below the
largest `off_t`. -/
def Valid (c : HandleCall) : Prop :=
  h.file.stat.stPtr < 2 ^ 64 ∧ h.file.stat.fileSize < 2 ^ 64 ∧
    match c with
    | .write _ _ data => h.tell + data.length < 2 ^ 63
    | .read size => h.tell + size < 2 ^ 63
    | .seek .set offset => 0 ≤ offset ∧ offset < 2 ^ 63
    | .seek .current offset => 0 ≤ h.tell + offset ∧ h.tell + offset < 2 ^ 63
    | .seek .end offset =>
      -2 ^ 63 ≤ offset ∧ 0 ≤ h.fileEnd + offset ∧ h.fileEnd + offset < 2 ^ 63
    | .tell => True

/-- The file is at the position then, and the call has returned it. -/
def MovesTo (moved : Handle × Nat) (pos : Int) : Prop :=
  (moved.1.tell : Int) = pos ∧ (moved.2 : Int) = pos

/-- What a read returns are the bytes from the position on, and it moves by their number. -/
def ReadsOn (size : Nat) : Prop :=
  (∀ i byte, (h.read size).2.data[i]? = some byte →
    (h.file.blobs.page ((h.tell + i) / h.file.stat.pageSize.bytes))[
      (h.tell + i) % h.file.stat.pageSize.bytes]? = some byte) ∧
    (h.read size).1.tell = h.tell + (h.read size).2.data.length

/-- A write starts at the end of a file opened for append and at the position of any other one,
a read at the position, and both move it by what they transfer; a seek moves to where it
says. -/
def Lawful (debug : Bool) : HandleCall → Prop
  | .write junk puts data =>
    h.writeStart = (if h.append then h.fileEnd else h.tell) ∧
      (h.write debug junk puts data).1.tell = h.writeStart + (h.write debug junk puts data).2
  | .read size => h.ReadsOn size
  | .seek .set offset => MovesTo (h.seek .set offset) offset
  | .seek .current offset => MovesTo (h.seek .current offset) (h.tell + offset)
  | .seek .end offset => MovesTo (h.seek .end offset) (h.fileEnd + offset)
  | .tell => h.call debug .tell = h

/-- All puts of the write are accepted, or it has none, or its first one is refused. -/
def AllOrNone (puts : Nat → Bool) (data : Bytes) : Prop :=
  (∀ j < pieces h.file.stat.pageSize h.tell data.length, puts j = true) ∨
    (data ≠ [] ∧ puts 0 = false)

/-- The bytes of the read are all there, or it asks for none that is in the first piece. -/
def WholeOrNone (size : Nat) : Prop :=
  h.file.stat.stPtr = sizeMax ∨ h.file.stat.readable = false ∨
    (∀ i < size, h.file.blobs.Stored h.file.stat.pageSize (h.file.stat.stPtr + i)) ∨
    (0 < size ∧ ¬ h.file.blobs.Stored h.file.stat.pageSize
      (h.file.stat.stPtr + (firstPiece h.file.stat.pageSize h.file.stat.stPtr size - 1)))

/-- When a call keeps the laws. -/
def Keeps : HandleCall → Prop
  | .write _ puts data => (h.append = true → h.AtEnd) ∧ h.AllOrNone puts data
  | .read size => h.WholeOrNone size
  | .seek .end _ => h.file.stat.fileSize = h.fileEnd
  | .seek .set _ | .seek .current _ | .tell => True

variable {h}

/-- `Write` starts where `Tell` says, in append mode as well. -/
theorem writeStart_eq_tell (h : Handle) : h.writeStart = h.tell := by
  unfold writeStart tell
  by_cases happend : h.file.stat.stPtr = sizeMax
  · rw [if_pos happend, if_neg (not_not_intro happend)]
  · rw [if_neg happend, if_pos happend]

theorem atEnd_iff : h.AtEnd ↔ h.tell = h.fileEnd := by
  unfold AtEnd tell
  by_cases happend : h.file.stat.stPtr = sizeMax
  · rw [if_pos happend, if_neg (not_not_intro happend)]
  · rw [if_neg happend, if_pos happend]

theorem tell_setPtr {ptr : Nat} (hptr : ptr ≠ sizeMax) : (h.setPtr ptr).tell = ptr :=
  if_pos hptr

theorem toSizeT_of_small {x : Int} (hlow : 0 ≤ x) (hhigh : x < 2 ^ 63) :
    (toSizeT x : Int) = x ∧ toSizeT x ≠ sizeMax := by
  unfold toSizeT sizeMax
  omega

/-! ### Each call -/

theorem tell_write (debug : Bool) (junk : Junk) (hfits : h.tell + data.length < 2 ^ 63) :
    (h.write debug junk puts data).1.tell = h.writeStart + (h.write debug junk puts data).2 ↔
      h.AllOrNone puts data := by
  have hdone : (h.file.blobs.putLoop h.file.stat.pageSize junk puts data.length 0 h.writeStart
      data).2.2 = true ↔
      ∀ j < pieces h.file.stat.pageSize h.writeStart data.length, puts (0 + j) = true :=
    putLoop_done_iff h.file.blobs (le_refl data.length)
  simp only [Nat.zero_add] at hdone
  unfold AllOrNone
  rw [← writeStart_eq_tell h, ← hdone]
  rw [← writeStart_eq_tell h] at hfits
  unfold write
  dsimp only
  by_cases hend : (h.file.blobs.putLoop h.file.stat.pageSize junk puts data.length 0 h.writeStart
      data).2.2 = true
  · rw [if_pos hend]
    simp only [hend, true_or, iff_true]
    have hptr : h.writeStart + data.length ≠ sizeMax := by
      unfold sizeMax
      omega
    cases debug <;> exact if_pos hptr
  · rw [if_neg hend]
    have hdata : data ≠ [] := by
      rintro rfl
      exact hend rfl
    have hnothing : (h.file.blobs.putLoop h.file.stat.pageSize junk puts data.length 0 h.writeStart
        data).2.1 = 0 ↔ puts 0 = false := putLoop_written h.file.blobs hdata le_rfl
    simp only [hend, Bool.false_eq_true, false_or, ne_eq, hdata, not_false_eq_true, true_and]
    rw [← hnothing]
    have hstay : ∀ blobs : Blobs,
        Handle.tell { h with file := { h.file with blobs := blobs } } = h.writeStart := fun _ =>
      (writeStart_eq_tell h).symm
    rw [hstay]
    omega

theorem lawful_write_iff (debug : Bool) (junk : Junk) (hfits : h.tell + data.length < 2 ^ 63) :
    h.Lawful debug (.write junk puts data) ↔ h.Keeps (.write junk puts data) := by
  refine and_congr ?_ (tell_write debug junk hfits)
  rw [writeStart_eq_tell, atEnd_iff]
  cases h.append <;> simp

variable {size : Nat} {offset : Int}

theorem readsOn_of_nothing (count : Nat) (hread : h.read size = (h, ⟨count, []⟩)) :
    h.ReadsOn size := by
  unfold ReadsOn
  rw [hread]
  exact ⟨fun i byte hbyte => absurd hbyte (by simp), rfl⟩

/-- A read through the loop. -/
theorem readsOn_loop_iff (happend : h.file.stat.stPtr ≠ sizeMax)
    (hreadable : h.file.stat.readable ≠ false) (hsize : 0 < size)
    (hfits : h.file.stat.stPtr + size < 2 ^ 63) :
    h.ReadsOn size ↔
      (h.file.blobs.readLoop h.file.stat.pageSize size h.file.stat.stPtr size).2 = true ∨
        (h.file.blobs.readLoop h.file.stat.pageSize size h.file.stat.stPtr size).1 = [] := by
  have htell : h.tell = h.file.stat.stPtr := if_pos happend
  have hcontent : ∀ i byte, (h.file.blobs.readLoop h.file.stat.pageSize size h.file.stat.stPtr
      size).1[i]? = some byte →
      (h.file.blobs.page ((h.file.stat.stPtr + i) / h.file.stat.pageSize.bytes))[
        (h.file.stat.stPtr + i) % h.file.stat.pageSize.bytes]? = some byte := by
    intro i byte hbyte
    obtain ⟨hi, -⟩ := List.getElem?_eq_some_iff.mp hbyte
    rwa [readLoop_getElem? _ _ _ _ _ hi] at hbyte
  have hle := length_readLoop_le h.file.blobs h.file.stat.pageSize size h.file.stat.stPtr size
  have hread : h.read size =
      (if (h.file.blobs.readLoop h.file.stat.pageSize size h.file.stat.stPtr size).2 then
        h.setPtr (h.file.stat.stPtr +
          (h.file.blobs.readLoop h.file.stat.pageSize size h.file.stat.stPtr size).1.length) else h,
        ⟨(h.file.blobs.readLoop h.file.stat.pageSize size h.file.stat.stPtr size).1.length,
          (h.file.blobs.readLoop h.file.stat.pageSize size h.file.stat.stPtr size).1⟩) := by
    unfold read File.read
    rw [if_neg happend, if_neg hreadable, if_neg (Nat.ne_of_gt hsize)]
    dsimp only
    split <;> rfl
  unfold ReadsOn
  rw [hread, htell]
  refine (and_iff_right hcontent).trans ?_
  dsimp only
  split
  · rename_i hdone
    simp only [hdone, true_or, iff_true]
    refine tell_setPtr ?_
    unfold sizeMax
    omega
  · rename_i hstopped
    simp only [hstopped, Bool.false_eq_true, false_or]
    rw [htell, ← List.length_eq_zero_iff]
    omega

theorem readsOn_iff (hfits : h.tell + size < 2 ^ 63) :
    h.ReadsOn size ↔ h.WholeOrNone size := by
  unfold WholeOrNone
  by_cases happend : h.file.stat.stPtr = sizeMax
  · refine iff_of_true (readsOn_of_nothing 0 ?_) (Or.inl happend)
    rw [read, File.read, if_pos happend]
  by_cases hreadable : h.file.stat.readable = false
  · refine iff_of_true (readsOn_of_nothing sizeMax ?_) (Or.inr (Or.inl hreadable))
    rw [read, File.read, if_neg happend, if_pos hreadable]
  by_cases hzero : size = 0
  · subst hzero
    refine iff_of_true (readsOn_of_nothing 0 ?_) ?_
    · rw [read, File.read, if_neg happend, if_neg hreadable, if_pos rfl]
    · exact Or.inr (Or.inr (Or.inl fun i hi => absurd hi (Nat.not_lt_zero i)))
  · have hsize : 0 < size := Nat.pos_of_ne_zero hzero
    have htell : h.tell = h.file.stat.stPtr := if_pos happend
    rw [readsOn_loop_iff happend hreadable hsize (htell ▸ hfits), readLoop_done_iff _ le_rfl,
      readLoop_eq_nil_iff _ hsize le_rfl]
    simp only [happend, hreadable, hsize, true_and, false_or, Bool.true_eq_false]

theorem lawful_seek_set (debug : Bool) (hlow : 0 ≤ offset) (hhigh : offset < 2 ^ 63) :
    h.Lawful debug (.seek .set offset) := by
  obtain ⟨hcast, hptr⟩ := toSizeT_of_small hlow hhigh
  exact ⟨(congrArg _ (tell_setPtr hptr)).trans hcast, hcast⟩

theorem lawful_seek_current (debug : Bool) (hlow : 0 ≤ h.tell + offset)
    (hhigh : h.tell + offset < 2 ^ 63) : h.Lawful debug (.seek .current offset) := by
  obtain ⟨hcast, hptr⟩ := toSizeT_of_small hlow hhigh
  have hseek : h.seek .current offset =
      (h.setPtr (toSizeT (h.tell + offset)), toSizeT (h.tell + offset)) := by
    rw [seek, tell]
    by_cases happend : h.file.stat.stPtr ≠ sizeMax
    · rw [if_pos happend, if_pos happend]
    · rw [if_neg happend, if_neg happend]
  rw [Lawful, hseek]
  exact ⟨(congrArg _ (tell_setPtr hptr)).trans hcast, hcast⟩

theorem lawful_seek_end_iff (debug : Bool) (hsize : h.file.stat.fileSize < 2 ^ 64)
    (hoff : -2 ^ 63 ≤ offset) (hlow : 0 ≤ h.fileEnd + offset) (hhigh : h.fileEnd + offset < 2 ^ 63) :
    h.Lawful debug (.seek .end offset) ↔ h.file.stat.fileSize = h.fileEnd := by
  rw [Lawful, MovesTo, seek]
  by_cases hzero : offset = 0
  · subst hzero
    rw [if_pos rfl]
    have htell : (h.setPtr sizeMax).tell = h.file.stat.fileSize := if_neg (not_not_intro rfl)
    dsimp only
    rw [htell]
    omega
  · rw [if_neg hzero]
    constructor
    · rintro ⟨-, hreturned⟩
      dsimp only at hreturned
      unfold toSizeT at hreturned
      omega
    · intro heq
      rw [heq]
      obtain ⟨hcast, hptr⟩ := toSizeT_of_small hlow hhigh
      exact ⟨(congrArg _ (tell_setPtr hptr)).trans hcast, hcast⟩

theorem lawful_iff (debug : Bool) {c : HandleCall} (hvalid : h.Valid c) :
    h.Lawful debug c ↔ h.Keeps c := by
  obtain ⟨-, hsize, hcall⟩ := hvalid
  cases c with
  | write junk puts data => exact lawful_write_iff debug junk hcall
  | read size => exact readsOn_iff hcall
  | seek whence offset =>
    cases whence with
    | set => exact iff_of_true (lawful_seek_set debug hcall.1 hcall.2) trivial
    | current => exact iff_of_true (lawful_seek_current debug hcall.1 hcall.2) trivial
    | «end» => exact lawful_seek_end_iff debug hsize hcall.1 hcall.2.1 hcall.2.2
  | tell => exact iff_of_true rfl trivial

/-- A call is made. -/
def Makes (debug : Bool) (c : HandleCall) (h h' : Handle) : Prop :=
  h.Valid c ∧ h' = h.call debug c

end Handle

/--
**Positions follow the laws if and only if the calls keep them.**  In a run of calls on a file,
however it was opened, every call is lawful exactly when every write for append is at the end,
every seek from the end meets a cached size that is the end, and no transfer stops halfway.
-/
theorem positions_iff (debug : Bool) (ps : PageSize) (blobs : Blobs) (flags : OpenFlags)
    (backendSize : Nat) (calls : List HandleCall) (last : Handle) :
    Along (fun c h h' => Handle.Makes debug c h h' ∧ h.Lawful debug c) calls
        (openFile ps blobs flags backendSize) last ↔
      Along (fun c h h' => Handle.Makes debug c h h' ∧ h.Keeps c) calls
        (openFile ps blobs flags backendSize) last :=
  Along.congr_of_invariant (I := fun _ => True)
    (fun _ _ _ _ => and_congr_right fun hmakes => Handle.lawful_iff debug hmakes.1)
    (fun _ _ _ _ _ => trivial) trivial

/-! ### An end that is not the end -/

/-- Pages of 4 bytes. -/
def fourBytes : PageSize := ⟨4, Nat.succ_pos 3⟩

/-- Three bytes are written. -/
def abc : HandleCall := .write (fun _ _ => 0) (fun _ => true) [97, 98, 99]

/-- A new file is at the start after a seek to its end; and a file opened for append is written
at its start after a seek to there. -/
theorem end_not_found :
    let fresh := openFile fourBytes AMap.empty ⟨false, true, true⟩ 0
    let written := fresh.call false abc
    let appended := (openFile fourBytes AMap.empty ⟨true, true, true⟩ 0).call false abc
    written.fileEnd = 3 ∧ (written.call false (.seek .end 0)).tell = 0 ∧
      ¬ written.Lawful false (.seek .end 0) ∧
      (appended.call false (.seek .set 0)).fileEnd = 3 ∧
      (appended.call false (.seek .set 0)).writeStart = 0 ∧
      ¬ (appended.call false (.seek .set 0)).Lawful false abc := by
  refine ⟨by decide, by decide, fun h => ?_, by decide, by decide, fun h => ?_⟩
  · exact absurd h.1 (by decide)
  · exact absurd h.1 (by decide)

end Adapter
end IowarpCore
