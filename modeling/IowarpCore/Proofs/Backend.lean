/-
When the file backend does what the RAM backend does.

Both count the same bytes: what a batch transfers is added up block by block when the
batch is waited for.  But all blocks of a batch are submitted with the counters as they
stood when the batch began, so each of them is given the same part of the buffer, and as
many bytes of it as if it were alone.  That is right for a batch in which only one block is
not empty.  And the loop only ends if no batch begins with all bytes transferred already.

`OneByOne` says both, `fileLoop_agrees` that it is enough, and `fileLoop_differs` that
for blocks that lie apart nothing less is.
-/
import IowarpCore.Lib.Extents
import IowarpCore.Bdev.Backend

namespace IowarpCore
namespace Bdev

open Extent

/-- The layer completes every submission in full. -/
def completeIo : AsyncIo := fun _ size => .done size

theorem completeIo_eq (n : Nat) (size : UInt64) : completeIo n size = .done size := rfl

/-- The backends leave the same bytes and report the same. -/
structure BackendsAgree (ioDepth : Nat) (ramSize : UInt64) (blocks : List Block)
    (length : UInt64) (data contents buffer : Nat → UInt8) : Prop where
  writes : ∃ rc bytes after, WritesToFile completeIo ioDepth blocks length data contents rc bytes after
  written : ∀ rc bytes after,
    WritesToFile completeIo ioDepth blocks length data contents rc bytes after →
      (rc, bytes, after) = writeToRam ramSize blocks length data contents
  reads : ∃ rc bytes after, ReadsFromFile completeIo ioDepth blocks length contents buffer rc bytes after
  read : ∀ rc bytes after,
    ReadsFromFile completeIo ioDepth blocks length contents buffer rc bytes after →
      (rc, bytes, after) = readFromRam ramSize blocks length contents buffer

/-! ### Counting -/

/-- The bytes in the blocks. -/
def sizeSum (blocks : List Block) : Nat := (blocks.map fun b => b.size.toNat).sum

/-- The bytes transferred after the blocks, if so many were before. -/
def advance (length : UInt64) (blocks : List Block) (total : UInt64) : UInt64 :=
  blocks.foldl (fun t b => t + min (length - t) b.size) total

section

variable {length total : UInt64}

theorem step_toNat (h : total ≤ length) (b : Block) :
    (total + min (length - total) b.size).toNat =
      min length.toNat (total.toNat + b.size.toNat) := by
  have hle := UInt64.le_iff_toNat_le.mp h
  have hlt := length.toNat_lt
  rw [UInt64.toNat_add, UInt64.toNat_min, UInt64.toNat_sub_of_le _ _ h]
  omega

theorem advance_toNat (blocks : List Block) : ∀ {total : UInt64}, total ≤ length →
    (advance length blocks total).toNat = min length.toNat (total.toNat + sizeSum blocks) := by
  induction blocks with
  | nil =>
    intro total h
    have hle := UInt64.le_iff_toNat_le.mp h
    show total.toNat = min length.toNat (total.toNat + 0)
    omega
  | cons b bs ih =>
    intro total h
    have hstep := step_toNat h b
    have hle : total + min (length - total) b.size ≤ length := by
      rw [UInt64.le_iff_toNat_le, hstep]
      omega
    show (advance length bs (total + min (length - total) b.size)).toNat = _
    rw [ih hle, hstep]
    show _ = min length.toNat (total.toNat + (b.size.toNat + sizeSum bs))
    omega

theorem advance_le (blocks : List Block) (h : total ≤ length) :
    advance length blocks total ≤ length := by
  rw [UInt64.le_iff_toNat_le, advance_toNat blocks h]
  omega

theorem remaining_eq_zero (h : total ≤ length) : length - total = 0 ↔ length.toNat ≤ total.toNat := by
  rw [← UInt64.toNat_inj, UInt64.toNat_sub_of_le _ _ h]
  have hle := UInt64.le_iff_toNat_le.mp h
  show length.toNat - total.toNat = 0 ↔ _
  omega

/-- Nothing is added when nothing remains. -/
theorem advance_of_full (h : total ≤ length) (hfull : length - total = 0) (blocks : List Block) :
    advance length blocks total = total := by
  have hge := (remaining_eq_zero h).mp hfull
  have hle := UInt64.le_iff_toNat_le.mp h
  rw [← UInt64.toNat_inj, advance_toNat blocks h]
  omega

/-! ### What the loops move -/

/-- The copies of the RAM backend. -/
def ramMoves (length : UInt64) : List Block → UInt64 → List Move
  | [], _ => []
  | b :: bs, total =>
    if length - total = 0 then []
    else ⟨b.offset, total, min (length - total) b.size⟩ ::
      ramMoves length bs (total + min (length - total) b.size)

/-- The moves of one batch of the file backend. -/
def batchMoves (length : UInt64) (blocks : List Block) (total : UInt64) : List Move :=
  blocks.map fun b => ⟨b.offset, total, min (length - total) b.size⟩

theorem ramMoves_of_full (hfull : length - total = 0) (blocks : List Block) :
    ramMoves length blocks total = [] := by
  cases blocks with
  | nil => rfl
  | cons b bs => rw [ramMoves, if_pos hfull]

theorem ramMoves_append (xs ys : List Block) : ∀ {total : UInt64}, total ≤ length →
    ramMoves length (xs ++ ys) total =
      ramMoves length xs total ++ ramMoves length ys (advance length xs total) := by
  induction xs with
  | nil => exact fun _ => rfl
  | cons b bs ih =>
    intro total h
    by_cases hfull : length - total = 0
    · rw [ramMoves_of_full hfull, ramMoves_of_full hfull, advance_of_full h hfull,
        ramMoves_of_full hfull]
      rfl
    · have hle : total + min (length - total) b.size ≤ length := advance_le [b] h
      rw [List.cons_append, ramMoves, if_neg hfull, ih hle, ramMoves, if_neg hfull]
      rfl

/-- Every copy is of one of the blocks, from where the counters stood or behind. -/
theorem mem_ramMoves {m : Move} (blocks : List Block) : ∀ {total : UInt64}, total ≤ length →
    m ∈ ramMoves length blocks total →
    ∃ b ∈ blocks, m.offset = b.offset ∧ m.count.toNat ≤ b.size.toNat ∧ total ≤ m.bufferOffset := by
  induction blocks with
  | nil =>
    intro total _ hm
    simp [ramMoves] at hm
  | cons b bs ih =>
    intro total h hm
    have hle : total + min (length - total) b.size ≤ length := advance_le [b] h
    have hstep : total ≤ total + min (length - total) b.size := by
      have ht := UInt64.le_iff_toNat_le.mp h
      rw [UInt64.le_iff_toNat_le, step_toNat h b]
      omega
    by_cases hfull : length - total = 0
    · rw [ramMoves_of_full hfull] at hm
      simp at hm
    · rw [ramMoves, if_neg hfull, List.mem_cons] at hm
      rcases hm with hm | hm
      · rw [hm]
        refine ⟨b, by simp, rfl, ?_, UInt64.le_refl _⟩
        rw [UInt64.toNat_min]
        exact Nat.min_le_right _ _
      · obtain ⟨b', hb', hoffset, hcount, hbuffer⟩ := ih hle hm
        exact ⟨b', List.mem_cons_of_mem _ hb', hoffset, hcount, UInt64.le_trans hstep hbuffer⟩

/-- Blocks inside the device are all copied. -/
theorem ramLoop_eq {ramSize : UInt64} (blocks : List Block) : ∀ {total : UInt64},
    total ≤ length → (∀ b ∈ blocks, b.offset.toNat + b.size.toNat ≤ ramSize.toNat) →
    ramLoop ramSize length blocks total total =
      (0, advance length blocks total, ramMoves length blocks total) := by
  induction blocks with
  | nil => exact fun _ _ => rfl
  | cons b bs ih =>
    intro total h hinside
    unfold ramLoop ramMoves
    by_cases hfull : length - total = 0
    · simp only [hfull, if_true]
      rw [advance_of_full h hfull]
    · have hle : total + min (length - total) b.size ≤ length := advance_le [b] h
      have hin : ¬b.offset + min (length - total) b.size > ramSize := by
        have hb := hinside b (by simp)
        have hlt := ramSize.toNat_lt
        rw [gt_iff_lt, UInt64.lt_iff_toNat_lt, UInt64.toNat_add, UInt64.toNat_min]
        omega
      simp only [hfull, if_false, hin, ih hle fun b' hb' => hinside b' (List.mem_cons_of_mem _ hb')]
      rfl

/-! ### One pass of the file loop -/

/-- The entry of a block that was submitted with the counters at `total`. -/
def pendingOf (length total : UInt64) (b : Block) : PendingIo :=
  ⟨b, ⟨b.offset, total, min (length - total) b.size⟩, some (min (length - total) b.size)⟩

theorem submitBatch_complete {ioDepth submitted : Nat} (hfull : length - total ≠ 0)
    (blocks : List Block) : ∀ {pending : List PendingIo}, pending.length ≤ ioDepth →
    submitBatch completeIo ioDepth length total total submitted pending blocks =
      (0, pending ++ (blocks.take (ioDepth - pending.length)).map (pendingOf length total),
        blocks.drop (ioDepth - pending.length)) := by
  induction blocks with
  | nil =>
    intro pending _
    simp [submitBatch]
  | cons b bs ih =>
    intro pending hroom
    unfold submitBatch
    by_cases hless : pending.length < ioDepth
    · obtain ⟨n, hn⟩ : ∃ n, ioDepth - pending.length = n + 1 :=
        ⟨ioDepth - pending.length - 1, by omega⟩
      have hmin : min (min (length - total) b.size) (min (length - total) b.size) =
          min (length - total) b.size := by
        rw [← UInt64.toNat_inj, UInt64.toNat_min, Nat.min_self]
      have hlen : (pending ++ [pendingOf length total b]).length = pending.length + 1 := by simp
      have hrest := @ih (pending ++ [pendingOf length total b]) (by omega)
      have hn' : ioDepth - (pending ++ [pendingOf length total b]).length = n := by omega
      rw [hn'] at hrest
      rw [if_pos hless]
      dsimp only
      rw [if_neg hfull, completeIo_eq]
      dsimp only
      rw [hmin, hn, List.take_succ_cons, List.drop_succ_cons, List.map_cons]
      refine hrest.trans ?_
      rw [List.append_assoc]
      rfl
    · have hzero : ioDepth - pending.length = 0 := by omega
      rw [if_neg hless, hzero]
      simp

theorem waitBatch_complete {start : UInt64} (blocks : List Block) : ∀ {total : UInt64},
    start ≤ total → total ≤ length →
    waitBatch length (blocks.map (pendingOf length start)) total total =
      (0, advance length blocks total, advance length blocks total) := by
  induction blocks with
  | nil => exact fun _ _ => rfl
  | cons b bs ih =>
    intro total hstart h
    rw [List.map_cons]
    unfold waitBatch
    by_cases hfull : length - total = 0
    · simp only [hfull, if_true]
      rw [advance_of_full h hfull]
    · have hle : total + min (length - total) b.size ≤ length := advance_le [b] h
      -- What was submitted with the older counters is enough.
      have hactual : min (min (length - start) b.size) (min (length - total) b.size) =
          min (length - total) b.size := by
        have hs := UInt64.le_iff_toNat_le.mp hstart
        have ht := UInt64.le_iff_toNat_le.mp h
        rw [← UInt64.toNat_inj]
        simp only [UInt64.toNat_min, UInt64.toNat_sub_of_le _ _ h,
          UInt64.toNat_sub_of_le _ _ (UInt64.le_trans hstart h)]
        omega
      have hnext : start ≤ total + min (length - total) b.size := by
        have hs := UInt64.le_iff_toNat_le.mp hstart
        have ht := UInt64.le_iff_toNat_le.mp h
        rw [UInt64.le_iff_toNat_le, step_toNat h b]
        omega
      simp only [hfull, if_false, pendingOf, hactual]
      exact ih hnext hle

theorem moved_pendingOf (blocks : List Block) :
    (blocks.map (pendingOf length total)).map PendingIo.moved = batchMoves length blocks total := by
  rw [List.map_map]
  rfl

/-- One pass that submits something. -/
theorem fileLoop_pass {ioDepth passes submitted : Nat} {blocks : List Block} (h : total ≤ length)
    (hne : blocks ≠ []) (hdepth : 0 < ioDepth) (hfull : length - total ≠ 0) :
    fileLoop completeIo ioDepth length (passes + 1) blocks submitted total total =
      (fileLoop completeIo ioDepth length passes (blocks.drop ioDepth)
        (submitted + (blocks.take ioDepth).length) (advance length (blocks.take ioDepth) total)
        (advance length (blocks.take ioDepth) total)).map fun r =>
          (r.1, r.2.1, batchMoves length (blocks.take ioDepth) total :: r.2.2) := by
  obtain ⟨b, bs, rfl⟩ := List.exists_cons_of_ne_nil hne
  have hsubmit := @submitBatch_complete length total ioDepth submitted hfull (b :: bs) []
    (Nat.zero_le _)
  rw [List.nil_append, List.length_nil, Nat.sub_zero] at hsubmit
  have hsome : ((b :: bs).take ioDepth).map (pendingOf length total) ≠ [] := by
    obtain ⟨n, rfl⟩ : ∃ n, ioDepth = n + 1 := ⟨ioDepth - 1, by omega⟩
    simp
  have hempty : (((b :: bs).take ioDepth).map (pendingOf length total)).isEmpty = false := by
    rw [← Bool.not_eq_true, List.isEmpty_iff]
    exact hsome
  conv_lhs => unfold fileLoop
  rw [hsubmit]
  dsimp only
  rw [hempty, waitBatch_complete _ (UInt64.le_refl _) h, moved_pendingOf, List.length_map]
  simp only [ne_eq, not_true_eq_false, if_false, Bool.false_eq_true]

/-- A pass that submits nothing. -/
theorem submitBatch_stuck {aio : AsyncIo} {ioDepth submitted : Nat} {dataOffset : UInt64}
    (hstuck : ioDepth = 0 ∨ length - total = 0) (b : Block) (bs : List Block) :
    submitBatch aio ioDepth length total dataOffset submitted [] (b :: bs) = (0, [], b :: bs) := by
  unfold submitBatch
  rcases hstuck with hdepth | hfull
  · rw [if_neg (by rw [hdepth]; exact Nat.lt_irrefl 0)]
  · by_cases hless : ([] : List PendingIo).length < ioDepth
    · rw [if_pos hless]
      dsimp only
      rw [if_pos hfull]
    · rw [if_neg hless]

theorem fileLoop_stuck {ioDepth passes submitted : Nat} {blocks : List Block} (hne : blocks ≠ [])
    (hstuck : ioDepth = 0 ∨ length - total = 0) :
    fileLoop completeIo ioDepth length passes blocks submitted total total = none := by
  obtain ⟨b, bs, rfl⟩ := List.exists_cons_of_ne_nil hne
  cases passes with
  | zero => rfl
  | succ n =>
    unfold fileLoop
    rw [submitBatch_stuck hstuck b bs]
    rfl

end

/-! ### Batches with one block -/

/-- The block is not empty. -/
def nonempty (b : Block) : Bool := b.size ≠ 0

/-- From `total` on, every batch begins with bytes left to transfer and has at most one
block that is not empty. -/
def OneByOne (ioDepth length : Nat) (blocks : List Block) (total : Nat) : Prop :=
  ∀ k, ioDepth * k < blocks.length →
    0 < ioDepth ∧ total + sizeSum (blocks.take (ioDepth * k)) < length ∧
      (((blocks.drop (ioDepth * k)).take ioDepth).filter nonempty).length ≤ 1

theorem sizeSum_append (xs ys : List Block) : sizeSum (xs ++ ys) = sizeSum xs + sizeSum ys := by
  simp [sizeSum]

/-- The first batch and the rest. -/
theorem oneByOne_iff {ioDepth length total : Nat} {blocks : List Block} (hne : blocks ≠ []) :
    OneByOne ioDepth length blocks total ↔
      0 < ioDepth ∧ total < length ∧ ((blocks.take ioDepth).filter nonempty).length ≤ 1 ∧
        OneByOne ioDepth length (blocks.drop ioDepth) (total + sizeSum (blocks.take ioDepth)) := by
  have hpos : 0 < blocks.length := List.length_pos_iff.mpr hne
  have hsplit : ∀ k, blocks.take (ioDepth * (k + 1)) =
      blocks.take ioDepth ++ (blocks.drop ioDepth).take (ioDepth * k) := by
    intro k
    rw [Nat.mul_succ, Nat.add_comm, List.take_add]
  have hdrop : ∀ k, blocks.drop (ioDepth * (k + 1)) = (blocks.drop ioDepth).drop (ioDepth * k) := by
    intro k
    rw [List.drop_drop, Nat.mul_succ, Nat.add_comm]
  refine ⟨?_, ?_⟩
  · intro h
    obtain ⟨hdepth, hlt, hone⟩ := h 0 (by simpa using hpos)
    rw [Nat.mul_zero, List.take_zero, List.drop_zero] at *
    refine ⟨hdepth, hlt, hone, ?_⟩
    intro k hk
    rw [List.length_drop] at hk
    have hk' : ioDepth * (k + 1) < blocks.length := by
      rw [Nat.mul_succ]
      omega
    obtain ⟨_, hlt', hone'⟩ := h (k + 1) hk'
    rw [hsplit, sizeSum_append] at hlt'
    rw [hdrop] at hone'
    exact ⟨hdepth, by omega, hone'⟩
  · rintro ⟨hdepth, hlt, hone, hrest⟩ k hk
    cases k with
    | zero =>
      rw [Nat.mul_zero, List.take_zero, List.drop_zero]
      exact ⟨hdepth, hlt, hone⟩
    | succ k =>
      have hk' : ioDepth * k < (blocks.drop ioDepth).length := by
        rw [Nat.mul_succ] at hk
        rw [List.length_drop]
        omega
      obtain ⟨_, hlt', hone'⟩ := hrest k hk'
      rw [hsplit, hdrop, sizeSum_append]
      exact ⟨hdepth, by omega, hone'⟩

section

variable {length total : UInt64}

/-- The moves that move something. -/
def moving (ms : List Move) : List Move := ms.filter fun m => m.count ≠ 0

/-- In a batch with one block the two backends move the same. -/
theorem moving_batch {blocks : List Block} : ∀ {total : UInt64}, total ≤ length →
    length - total ≠ 0 → (blocks.filter nonempty).length ≤ 1 →
    moving (batchMoves length blocks total) = moving (ramMoves length blocks total) ∧
      (moving (batchMoves length blocks total)).length ≤ 1 := by
  induction blocks with
  | nil => exact fun _ _ _ => ⟨rfl, Nat.zero_le 1⟩
  | cons b bs ih =>
    intro total h hfull hone
    by_cases hzero : b.size = 0
    · -- An empty block moves nothing and leaves the counters.
      have hmin : min (length - total) b.size = 0 := by
        rw [hzero, ← UInt64.toNat_inj, UInt64.toNat_min]
        exact Nat.min_zero _
      have hsame : total + min (length - total) b.size = total := by
        rw [hmin, UInt64.add_zero]
      have hone' : (bs.filter nonempty).length ≤ 1 := by
        rw [List.filter_cons_of_neg (by simp [nonempty, hzero])] at hone
        exact hone
      obtain ⟨heq, hlen⟩ := ih h hfull hone'
      rw [ramMoves, if_neg hfull, hsame]
      unfold batchMoves moving at *
      rw [List.map_cons, List.filter_cons_of_neg (by simp [hmin]),
        List.filter_cons_of_neg (by simp [hmin])]
      exact ⟨heq, hlen⟩
    · have hrest : bs.filter nonempty = [] := by
        rw [List.filter_cons_of_pos (by simp [nonempty, hzero]), List.length_cons] at hone
        exact List.length_eq_zero_iff.mp (by omega)
      have hnone : ∀ b' ∈ bs, b'.size = 0 := by
        intro b' hb'
        have := List.filter_eq_nil_iff.mp hrest b' hb'
        simpa [nonempty] using this
      have hbatch : moving (batchMoves length bs total) = [] := by
        rw [moving, List.filter_eq_nil_iff]
        intro m hm
        obtain ⟨b', hb', hm'⟩ := List.mem_map.mp hm
        rw [← hm', hnone b' hb']
        simp [← UInt64.toNat_inj, UInt64.toNat_min]
      have hle : total + min (length - total) b.size ≤ length := advance_le [b] h
      have hram : moving (ramMoves length bs (total + min (length - total) b.size)) = [] := by
        rw [moving, List.filter_eq_nil_iff]
        intro m hm
        obtain ⟨b', hb', _, hcount, _⟩ := mem_ramMoves bs hle hm
        rw [hnone b' hb'] at hcount
        have hcount0 : m.count = 0 := by
          rw [← UInt64.toNat_inj]
          exact Nat.le_zero.mp hcount
        simp [hcount0]
      have hpos : min (length - total) b.size ≠ 0 := by
        intro hmin
        rw [← UInt64.toNat_inj, UInt64.toNat_min] at hmin
        have h₁ : (length - total).toNat ≠ 0 := fun hz => hfull (UInt64.toNat_inj.mp hz)
        have h₂ : b.size.toNat ≠ 0 := fun hz => hzero (UInt64.toNat_inj.mp hz)
        have hz : (0 : UInt64).toNat = 0 := rfl
        omega
      rw [ramMoves, if_neg hfull]
      unfold batchMoves moving at *
      rw [List.map_cons, List.filter_cons_of_pos (by simpa using hpos), hbatch,
        List.filter_cons_of_pos (by simpa using hpos), hram]
      exact ⟨rfl, Nat.le_refl 1⟩

/-- Moves that move nothing may be left out. -/
theorem foldl_moving {apply : (Nat → UInt8) → Move → Nat → UInt8}
    (happly : ∀ f m, m.count = 0 → apply f m = f) (ms : List Move) :
    ∀ f, ms.foldl apply f = (moving ms).foldl apply f := by
  induction ms with
  | nil => exact fun _ => rfl
  | cons m ms ih =>
    intro f
    by_cases hm : m.count = 0
    · rw [List.foldl_cons, happly f m hm, ih f, moving, moving,
        List.filter_cons_of_neg (by simp [hm])]
    · rw [List.foldl_cons, ih, moving, moving, List.filter_cons_of_pos (by simpa using hm),
        List.foldl_cons]

/-- However they land, the moves of such a batch do what the copies do. -/
theorem foldl_batch {apply : (Nat → UInt8) → Move → Nat → UInt8}
    (happly : ∀ f m, m.count = 0 → apply f m = f) {blocks : List Block} {landed : List Move}
    (h : total ≤ length) (hfull : length - total ≠ 0) (hone : (blocks.filter nonempty).length ≤ 1)
    (hperm : (batchMoves length blocks total).Perm landed) (f : Nat → UInt8) :
    landed.foldl apply f = (ramMoves length blocks total).foldl apply f := by
  obtain ⟨heq, hlen⟩ := moving_batch h hfull hone
  have hmoving : (moving (batchMoves length blocks total)).Perm (moving landed) :=
    hperm.filter _
  have hsame : moving landed = moving (batchMoves length blocks total) := by
    cases hcase : moving (batchMoves length blocks total) with
    | nil =>
      rw [hcase] at hmoving
      exact List.perm_nil.mp hmoving.symm
    | cons m ms =>
      rw [hcase, List.length_cons] at hlen
      have hms : ms = [] := List.length_eq_zero_iff.mp (by omega)
      rw [hcase, hms] at hmoving
      rw [hms]
      exact List.perm_singleton.mp hmoving.symm
  rw [foldl_moving happly landed, foldl_moving happly (ramMoves length blocks total), hsame, heq]

/-- **One by one is enough**: the loop ends, counts the same bytes and, in whatever order the
moves land, does what the copies do. -/
theorem fileLoop_agrees {ioDepth : Nat} : ∀ (passes : Nat) {blocks : List Block} {submitted : Nat}
    {total : UInt64}, total ≤ length → blocks.length ≤ passes →
    OneByOne ioDepth length.toNat blocks total.toNat →
    ∃ batches, fileLoop completeIo ioDepth length passes blocks submitted total total =
        some (0, advance length blocks total, batches) ∧
      ∀ {apply : (Nat → UInt8) → Move → Nat → UInt8}, (∀ f m, m.count = 0 → apply f m = f) →
        ∀ before after, Lands apply batches before after →
          after = (ramMoves length blocks total).foldl apply before := by
  intro passes
  induction passes with
  | zero =>
    intro blocks submitted total h hlen _
    have hnil : blocks = [] := List.length_eq_zero_iff.mp (by omega)
    subst hnil
    refine ⟨[], rfl, ?_⟩
    rintro apply _ before after ⟨landed, hperm, hafter⟩
    cases hperm
    exact hafter
  | succ passes ih =>
    intro blocks submitted total h hlen hone
    by_cases hne : blocks = []
    · subst hne
      refine ⟨[], rfl, ?_⟩
      rintro apply _ before after ⟨landed, hperm, hafter⟩
      cases hperm
      exact hafter
    obtain ⟨hdepth, hlt, hchunk, hrest⟩ := (oneByOne_iff hne).mp hone
    have hfull : length - total ≠ 0 := by
      intro hz
      have := (remaining_eq_zero h).mp hz
      omega
    have hnext : advance length (blocks.take ioDepth) total ≤ length := advance_le _ h
    have hlen' : (blocks.drop ioDepth).length ≤ passes := by
      have := List.length_pos_iff.mpr hne
      rw [List.length_drop]
      omega
    have hrest' : OneByOne ioDepth length.toNat (blocks.drop ioDepth)
        (advance length (blocks.take ioDepth) total).toNat := by
      rw [advance_toNat _ h]
      by_cases hend : blocks.drop ioDepth = []
      · intro k hk
        rw [hend] at hk
        simp at hk
      · obtain ⟨_, hlt', _, _⟩ := (oneByOne_iff hend).mp hrest
        rw [Nat.min_eq_right (by omega)]
        exact hrest
    obtain ⟨batches, hloop, hlands⟩ := @ih (blocks.drop ioDepth)
      (submitted + (blocks.take ioDepth).length) _ hnext hlen' hrest'
    refine ⟨batchMoves length (blocks.take ioDepth) total :: batches, ?_, ?_⟩
    · rw [fileLoop_pass h hne hdepth hfull, hloop]
      have hsum : advance length blocks total =
          advance length (blocks.drop ioDepth) (advance length (blocks.take ioDepth) total) := by
        conv_lhs => rw [← List.take_append_drop ioDepth blocks]
        exact List.foldl_append
      rw [hsum]
      rfl
    · rintro apply happly before after ⟨landed, hperm, hafter⟩
      obtain ⟨first, others, hfirst, hothers, rfl⟩ := List.forall₂_cons_left_iff.mp hperm
      rw [List.flatten_cons, List.foldl_append,
        foldl_batch happly h hfull hchunk hfirst] at hafter
      have hcopies := hlands happly _ after ⟨others, hothers, hafter⟩
      rw [hcopies]
      conv_rhs => rw [← List.take_append_drop ioDepth blocks]
      rw [ramMoves_append _ _ h, List.foldl_append]

/-! ### Batches with two blocks -/

/-- The move covers position `x` of the device. -/
def Move.Covers (m : Move) (x : Nat) : Prop :=
  m.offset.toNat ≤ x ∧ x < m.offset.toNat + m.count.toNat

/-- The position of the buffer that goes to `x`. -/
def Move.source (m : Move) (x : Nat) : Nat := m.bufferOffset.toNat + (x - m.offset.toNat)

/-- The space of a block as its own fields have it. -/
def Block.extent (b : Block) : Extent := (b.offset.toNat, b.size.toNat)

/-- A move of a block that lies apart from the block of `x` does not cover `x`. -/
theorem not_covers {m : Move} {b b' : Block} {x : Nat} (hoffset : m.offset = b.offset)
    (hcount : m.count.toNat ≤ b.size.toNat) (hapart : Apart b.extent b'.extent)
    (hle : b'.offset.toNat ≤ x) (hlt : x < b'.offset.toNat + b'.size.toNat) : ¬m.Covers x := by
  rintro ⟨hle', hlt'⟩
  rw [hoffset] at hle' hlt'
  unfold Apart Extent.stop Block.extent at hapart
  dsimp only at hapart
  omega

theorem mem_fileLoop {ioDepth : Nat} : ∀ (passes : Nat) {blocks : List Block} {submitted : Nat}
    {total bytes : UInt64} {rc : UInt32} {batches : List (List Move)}, total ≤ length →
    fileLoop completeIo ioDepth length passes blocks submitted total total =
      some (rc, bytes, batches) →
    ∀ m ∈ batches.flatten, ∃ b ∈ blocks, m.offset = b.offset ∧ m.count.toNat ≤ b.size.toNat := by
  intro passes
  induction passes with
  | zero =>
    intro blocks submitted total bytes rc batches h hloop m hm
    cases blocks with
    | nil =>
      simp only [fileLoop, Option.some.injEq, Prod.mk.injEq] at hloop
      rw [← hloop.2.2] at hm
      simp at hm
    | cons b bs => simp [fileLoop] at hloop
  | succ passes ih =>
    intro blocks submitted total bytes rc batches h hloop m hm
    by_cases hne : blocks = []
    · subst hne
      simp only [fileLoop, Option.some.injEq, Prod.mk.injEq] at hloop
      rw [← hloop.2.2] at hm
      simp at hm
    by_cases hstuck : ioDepth = 0 ∨ length - total = 0
    · rw [fileLoop_stuck hne hstuck] at hloop
      simp at hloop
    rw [not_or] at hstuck
    rw [fileLoop_pass h hne (by omega) hstuck.2] at hloop
    obtain ⟨r, hr, heq⟩ := Option.map_eq_some_iff.mp hloop
    simp only [Prod.mk.injEq] at heq
    rw [← heq.2.2, List.flatten_cons, List.mem_append] at hm
    rcases hm with hm | hm
    · obtain ⟨b, hb, hmb⟩ := List.mem_map.mp hm
      refine ⟨b, List.mem_of_mem_take hb, by rw [← hmb], ?_⟩
      rw [← hmb]
      dsimp only
      rw [UInt64.toNat_min]
      exact Nat.min_le_right _ _
    · obtain ⟨b, hb, hrest⟩ := ih (advance_le _ h) hr m hm
      exact ⟨b, List.mem_of_mem_drop hb, hrest⟩

/-- Two members of a list that satisfy a test. -/
theorem two_of_filter {α : Type} {p : α → Bool} {l : List α} (h : 1 < (l.filter p).length) :
    ∃ l₁ a l₂ b l₃, l = l₁ ++ a :: (l₂ ++ b :: l₃) ∧ p a = true ∧ p b = true := by
  induction l with
  | nil => simp at h
  | cons a l ih =>
    by_cases ha : p a = true
    · rw [List.filter_cons_of_pos ha, List.length_cons] at h
      have hpos : 0 < (l.filter p).length := by omega
      obtain ⟨b, hb⟩ := List.exists_mem_of_length_pos hpos
      obtain ⟨hmem, hpb⟩ := List.mem_filter.mp hb
      obtain ⟨l₂, l₃, rfl⟩ := List.append_of_mem hmem
      exact ⟨[], a, l₂, b, l₃, rfl, ha, hpb⟩
    · rw [List.filter_cons_of_neg ha] at h
      obtain ⟨l₁, a', l₂, b, l₃, rfl, ha', hb⟩ := ih h
      exact ⟨a :: l₁, a', l₂, b, l₃, rfl, ha', hb⟩

/-- There is a position that the file backend takes from somewhere in the buffer from where
the RAM backend takes none for it. -/
def Differs (file ram : List Move) (x source : Nat) : Prop :=
  (∃ m ∈ file, m.Covers x) ∧ (∀ m ∈ file, m.Covers x → m.source x = source) ∧
    ∀ m ∈ ram, m.Covers x → m.source x ≠ source

/-- The second of two blocks in a batch gets the bytes of the first. -/
theorem differs_first {before after rest : List Block} {b : Block} {others : List Move}
    (h : total ≤ length) (hlt : total.toNat < length.toNat) (hbefore : 0 < sizeSum before)
    (hb : b.size ≠ 0)
    (hapart : (before ++ b :: (after ++ rest)).Pairwise fun b b' => Apart b.extent b'.extent)
    (hothers : ∀ m ∈ others, ∃ b' ∈ rest, m.offset = b'.offset ∧ m.count.toNat ≤ b'.size.toNat) :
    Differs (batchMoves length (before ++ b :: after) total ++ others)
      (ramMoves length (before ++ b :: (after ++ rest)) total) b.offset.toNat total.toNat := by
  have hpos : 0 < b.size.toNat := by
    have : b.size.toNat ≠ 0 := fun hz => hb (UInt64.toNat_inj.mp hz)
    omega
  obtain ⟨_, hbs, hcross⟩ := List.pairwise_append.mp hapart
  -- No other block has this position.
  have hnot : ∀ {m : Move} {b' : Block}, b' ∈ before ∨ b' ∈ after ++ rest →
      m.offset = b'.offset → m.count.toNat ≤ b'.size.toNat → ¬m.Covers b.offset.toNat := by
    intro m b' hb' hoffset hcount
    refine not_covers hoffset hcount ?_ (Nat.le_refl _) (by omega)
    rcases hb' with hb' | hb'
    · exact hcross b' hb' b (by simp)
    · exact ((List.pairwise_cons.mp hbs).1 b' hb').symm
  have hcount : ∀ b' : Block, (min (length - total) b'.size).toNat ≤ b'.size.toNat := by
    intro b'
    rw [UInt64.toNat_min]
    exact Nat.min_le_right _ _
  refine ⟨⟨⟨b.offset, total, min (length - total) b.size⟩, ?_, ?_⟩, ?_, ?_⟩
  · exact List.mem_append_left _ (List.mem_map.mpr ⟨b, by simp, rfl⟩)
  · refine ⟨Nat.le_refl _, ?_⟩
    dsimp only
    rw [UInt64.toNat_min, UInt64.toNat_sub_of_le _ _ h]
    omega
  · intro m hm hcovers
    rcases List.mem_append.mp hm with hm | hm
    · obtain ⟨b', hb', hmb⟩ := List.mem_map.mp hm
      rcases List.mem_append.mp hb' with hb' | hb'
      · exact absurd hcovers (hnot (Or.inl hb') (by rw [← hmb]) (by rw [← hmb]; exact hcount b'))
      · rcases List.mem_cons.mp hb' with hb' | hb'
        · rw [← hmb, hb', Move.source]
          dsimp only
          omega
        · exact absurd hcovers (hnot (Or.inr (List.mem_append_left _ hb')) (by rw [← hmb])
            (by rw [← hmb]; exact hcount b'))
    · obtain ⟨b', hb', hoffset, hle⟩ := hothers m hm
      exact absurd hcovers (hnot (Or.inr (List.mem_append_right _ hb')) hoffset hle)
  · intro m hm hcovers
    have hadv := advance_toNat before h
    rw [ramMoves_append _ _ h, List.mem_append] at hm
    rcases hm with hm | hm
    · obtain ⟨b', hb', hoffset, hle, _⟩ := mem_ramMoves before h hm
      exact absurd hcovers (hnot (Or.inl hb') hoffset hle)
    · by_cases hfull : length - advance length before total = 0
      · rw [ramMoves_of_full hfull] at hm
        simp at hm
      · rw [ramMoves, if_neg hfull, List.mem_cons] at hm
        rcases hm with hm | hm
        · rw [hm, Move.source]
          dsimp only
          omega
        · obtain ⟨b', hb', hoffset, hle, _⟩ :=
            mem_ramMoves (after ++ rest) (advance_le [b] (advance_le before h)) hm
          exact absurd hcovers (hnot (Or.inr hb') hoffset hle)

/-- What differs later still differs when a batch goes before. -/
theorem differs_later {first rest : List Block} {others : List Move} {x source : Nat}
    {b : Block} (h : total ≤ length) (hb : b ∈ rest) (hle : b.offset.toNat ≤ x)
    (hlt : x < b.offset.toNat + b.size.toNat)
    (hapart : (first ++ rest).Pairwise fun b b' => Apart b.extent b'.extent)
    (hdiff : Differs others (ramMoves length rest (advance length first total)) x source) :
    Differs (batchMoves length first total ++ others) (ramMoves length (first ++ rest) total) x
      source := by
  obtain ⟨⟨m₀, hm₀, hcovers₀⟩, hfile, hram⟩ := hdiff
  have hcross := (List.pairwise_append.mp hapart).2.2
  refine ⟨⟨m₀, List.mem_append_right _ hm₀, hcovers₀⟩, ?_, ?_⟩
  · intro m hm hcovers
    rcases List.mem_append.mp hm with hm | hm
    · obtain ⟨b', hb', hmb⟩ := List.mem_map.mp hm
      refine absurd hcovers (not_covers (by rw [← hmb]) ?_ (hcross b' hb' b hb) hle hlt)
      rw [← hmb]
      dsimp only
      rw [UInt64.toNat_min]
      exact Nat.min_le_right _ _
    · exact hfile m hm hcovers
  · intro m hm hcovers
    rw [ramMoves_append _ _ h, List.mem_append] at hm
    rcases hm with hm | hm
    · obtain ⟨b', hb', hoffset, hcount, _⟩ := mem_ramMoves first h hm
      exact absurd hcovers (not_covers hoffset hcount (hcross b' hb' b hb) hle hlt)
    · exact hram m hm hcovers

/-- **Nothing less is enough** for blocks that lie apart: if the loop ends, the backends take
some byte from different places. -/
theorem fileLoop_differs {ioDepth : Nat} : ∀ (passes : Nat) {blocks : List Block}
    {submitted : Nat} {total bytes : UInt64} {rc : UInt32} {batches : List (List Move)},
    total ≤ length → (blocks.Pairwise fun b b' => Apart b.extent b'.extent) →
    fileLoop completeIo ioDepth length passes blocks submitted total total =
      some (rc, bytes, batches) →
    ¬OneByOne ioDepth length.toNat blocks total.toNat →
    ∃ x source, (∃ b ∈ blocks, b.offset.toNat ≤ x ∧ x < b.offset.toNat + b.size.toNat) ∧
      Differs batches.flatten (ramMoves length blocks total) x source := by
  intro passes
  induction passes with
  | zero =>
    intro blocks submitted total bytes rc batches h _ hloop hnot
    cases blocks with
    | nil =>
      refine absurd ?_ hnot
      intro k hk
      simp at hk
    | cons b bs => simp [fileLoop] at hloop
  | succ passes ih =>
    intro blocks submitted total bytes rc batches h hapart hloop hnot
    by_cases hne : blocks = []
    · subst hne
      refine absurd ?_ hnot
      intro k hk
      simp at hk
    by_cases hstuck : ioDepth = 0 ∨ length - total = 0
    · rw [fileLoop_stuck hne hstuck] at hloop
      simp at hloop
    rw [not_or] at hstuck
    obtain ⟨hdepth, hfull⟩ := hstuck
    have hlt : total.toNat < length.toNat :=
      Nat.lt_of_not_ge fun hge => hfull ((remaining_eq_zero h).mpr hge)
    have hnext : advance length (blocks.take ioDepth) total ≤ length := advance_le _ h
    rw [fileLoop_pass h hne (by omega) hfull] at hloop
    obtain ⟨r, hr, heq⟩ := Option.map_eq_some_iff.mp hloop
    simp only [Prod.mk.injEq] at heq
    rw [← heq.2.2, List.flatten_cons]
    rw [← List.take_append_drop ioDepth blocks] at hapart
    by_cases hone : ((blocks.take ioDepth).filter nonempty).length ≤ 1
    · -- The first batch is right, so a later one is not.
      have hnot' : ¬OneByOne ioDepth length.toNat (blocks.drop ioDepth)
          (advance length (blocks.take ioDepth) total).toNat := by
        intro hrest
        refine hnot ((oneByOne_iff hne).mpr ⟨by omega, hlt, hone, ?_⟩)
        rw [advance_toNat _ h] at hrest
        by_cases hend : blocks.drop ioDepth = []
        · intro k hk
          rw [hend] at hk
          simp at hk
        · obtain ⟨_, hlt', _, _⟩ := (oneByOne_iff hend).mp hrest
          rwa [Nat.min_eq_right (by omega)] at hrest
      obtain ⟨x, source, ⟨b, hb, hle, hlt'⟩, hdiff⟩ :=
        ih hnext (List.pairwise_append.mp hapart).2.1 hr hnot'
      refine ⟨x, source, ⟨b, List.mem_of_mem_drop hb, hle, hlt'⟩, ?_⟩
      have hlater := differs_later h hb hle hlt' hapart hdiff
      rwa [List.take_append_drop] at hlater
    · obtain ⟨l₁, a, l₂, b, l₃, hsplit, ha, hb⟩ :=
        @two_of_filter _ nonempty (blocks.take ioDepth) (by omega)
      have ha' : a.size ≠ 0 := by simpa [nonempty] using ha
      have hb' : b.size ≠ 0 := by simpa [nonempty] using hb
      have hpos : 0 < sizeSum (l₁ ++ a :: l₂) := by
        have hne' : a.size.toNat ≠ 0 := fun hz => ha' (UInt64.toNat_inj.mp hz)
        rw [sizeSum_append]
        show 0 < sizeSum l₁ + (a.size.toNat + sizeSum l₂)
        omega
      have htake : blocks.take ioDepth = (l₁ ++ a :: l₂) ++ b :: l₃ := by
        rw [hsplit, List.append_assoc]
        rfl
      have hall : blocks = (l₁ ++ a :: l₂) ++ b :: (l₃ ++ blocks.drop ioDepth) := by
        conv_lhs => rw [← List.take_append_drop ioDepth blocks, htake]
        rw [List.append_assoc]
        rfl
      have hapart' : ((l₁ ++ a :: l₂) ++ b :: (l₃ ++ blocks.drop ioDepth)).Pairwise
          fun b b' => Apart b.extent b'.extent := by
        rw [← hall]
        rwa [List.take_append_drop] at hapart
      have hfirst := differs_first h hlt hpos hb' hapart' (mem_fileLoop passes hnext hr)
      rw [← htake, ← hall] at hfirst
      refine ⟨_, _, ⟨b, ?_, Nat.le_refl _, ?_⟩, hfirst⟩
      · rw [hall]
        simp
      · have : b.size.toNat ≠ 0 := fun hz => hb' (UInt64.toNat_inj.mp hz)
        omega

/-! ### The backends -/

/-- The last of the moves that cover a position decide what it holds. -/
theorem foldl_write_at {data : Nat → UInt8} {x : Nat} {v : UInt8} (ms : List Move) :
    ∀ {contents : Nat → UInt8}, (∀ m ∈ ms, m.Covers x → data (m.source x) = v) →
      contents x = v ∨ (∃ m ∈ ms, m.Covers x) → ms.foldl (Move.write data) contents x = v := by
  induction ms with
  | nil =>
    intro contents _ hv
    rcases hv with hv | ⟨m, hm, _⟩
    · exact hv
    · simp at hm
  | cons m ms ih =>
    intro contents hsame hv
    rw [List.foldl_cons]
    refine ih (fun m' hm' => hsame m' (List.mem_cons_of_mem _ hm')) ?_
    by_cases hcovers : m.Covers x
    · left
      have hsource := hsame m (by simp) hcovers
      unfold Move.Covers at hcovers
      rw [Move.write, overlay, if_pos hcovers]
      exact hsource
    · rcases hv with hv | ⟨m', hm', hcovers'⟩
      · left
        unfold Move.Covers at hcovers
        rw [Move.write, overlay, if_neg hcovers]
        exact hv
      · right
        rcases List.mem_cons.mp hm' with hm' | hm'
        · rw [hm'] at hcovers'
          exact absurd hcovers' hcovers
        · exact ⟨m', hm', hcovers'⟩

theorem overlay_zero (f : Nat → UInt8) (start : Nat) (data : Nat → UInt8) :
    overlay f start 0 data = f := by
  funext a
  unfold overlay
  rw [if_neg (by omega)]

end

section

variable {ioDepth : Nat} {ramSize length : UInt64} {blocks : List Block}

/--
**When the file backend does what the RAM backend does.**  For blocks inside the device: if
every batch of `io_depth` blocks begins with bytes left to transfer and has at most one block
that is not empty, then the backends agree on all data.  For blocks that lie apart this is
also necessary.
-/
theorem backends_agree_iff
    (hinside : ∀ b ∈ blocks, b.offset.toNat + b.size.toNat ≤ ramSize.toNat) :
    (OneByOne ioDepth length.toNat blocks 0 →
      ∀ data contents buffer, BackendsAgree ioDepth ramSize blocks length data contents buffer) ∧
    ((blocks.Pairwise fun b b' => Apart b.extent b'.extent) →
      (∀ data contents buffer,
        BackendsAgree ioDepth ramSize blocks length data contents buffer) →
      OneByOne ioDepth length.toNat blocks 0) := by
  have hzero : (0 : UInt64) ≤ length := UInt64.zero_le
  have hram := @ramLoop_eq length ramSize blocks 0 hzero hinside
  refine ⟨?_, ?_⟩
  · intro hone data contents buffer
    obtain ⟨batches, hloop, hlands⟩ :=
      @fileLoop_agrees length ioDepth blocks.length blocks 0 0 hzero (Nat.le_refl _) hone
    have htransfer : fileTransfer completeIo ioDepth blocks length =
        some (0, advance length blocks 0, batches) := hloop
    have hlanded : List.Forall₂ List.Perm batches batches :=
      List.forall₂_same.mpr fun _ _ => List.Perm.refl _
    refine ⟨⟨_, _, _, batches, htransfer, batches, hlanded, rfl⟩, ?_,
      ⟨_, _, _, batches, htransfer, batches, hlanded, rfl⟩, ?_⟩
    · rintro rc bytes after ⟨batches', htransfer', hland⟩
      rw [htransfer, Option.some.injEq, Prod.mk.injEq, Prod.mk.injEq] at htransfer'
      obtain ⟨hrc, hbytes, hbatches⟩ := htransfer'
      rw [← hbatches] at hland
      have hafter := hlands (fun f m hm => by
        rw [Move.write, hm]
        exact overlay_zero _ _ _) contents after hland
      rw [writeToRam, hram, hafter, ← hrc, ← hbytes]
    · rintro rc bytes after ⟨batches', htransfer', hland⟩
      rw [htransfer, Option.some.injEq, Prod.mk.injEq, Prod.mk.injEq] at htransfer'
      obtain ⟨hrc, hbytes, hbatches⟩ := htransfer'
      rw [← hbatches] at hland
      have hafter := hlands (fun f m hm => by
        rw [Move.read, hm]
        exact overlay_zero _ _ _) buffer after hland
      rw [readFromRam, hram, hafter, ← hrc, ← hbytes]
  · intro hapart hagree
    by_contra hnot
    obtain ⟨rc, bytes, after, batches, htransfer, _⟩ :=
      (hagree (fun _ => 0) (fun _ => 0) (fun _ => 0)).writes
    obtain ⟨x, source, _, ⟨m, hm, hcovers⟩, hfile, hcopies⟩ :=
      fileLoop_differs blocks.length hzero hapart htransfer hnot
    -- A buffer with a single byte that is not 0 tells the two apart.
    have hwritten := (hagree (fun n => if n = source then 1 else 0) (fun _ => 0) fun _ => 0).written
      rc bytes _ ⟨batches, htransfer, batches,
        List.forall₂_same.mpr fun _ _ => List.Perm.refl _, rfl⟩
    rw [writeToRam, hram] at hwritten
    simp only [Prod.mk.injEq] at hwritten
    have hsame := congrFun hwritten.2.2 x
    rw [@foldl_write_at (fun n => if n = source then 1 else 0) x 1 batches.flatten (fun _ => 0) (by
      intro m' hm' hcovers'
      rw [hfile m' hm' hcovers']
      simp) (Or.inr ⟨m, hm, hcovers⟩),
      @foldl_write_at (fun n => if n = source then 1 else 0) x 0 (ramMoves length blocks 0)
        (fun _ => 0) (by
          intro m' hm' hcovers'
          exact if_neg (hcopies m' hm' hcovers')) (Or.inl rfl)] at hsame
    exact absurd hsame (by decide)

end

/-- Two blocks of five bytes, one after the other. -/
def twoBlocks : List Block := [⟨0, 5, 0⟩, ⟨5, 5, 0⟩]

theorem backends_agree_iff_one :
    OneByOne 1 10 twoBlocks 0 ∧
      ∀ data contents buffer, BackendsAgree 1 16 twoBlocks 10 data contents buffer := by
  have hone : OneByOne 1 (10 : UInt64).toNat twoBlocks 0 := by
    intro k hk
    have hcases : k = 0 ∨ k = 1 := by
      simp only [twoBlocks, List.length_cons, List.length_nil] at hk
      omega
    rcases hcases with rfl | rfl <;> decide
  exact ⟨hone, (backends_agree_iff (by decide)).1 hone⟩

/-- In one batch the second block gets the bytes of the first. -/
theorem second_block_repeats :
    ¬BackendsAgree 32 16 twoBlocks 10 (fun n => UInt8.ofNat n) (fun _ => 0) (fun _ => 0) := by
  intro h
  have hwritten := h.written 0 10 _
    ⟨[[⟨0, 0, 5⟩, ⟨5, 0, 5⟩]], by decide +kernel, _,
      List.forall₂_same.mpr fun _ _ => List.Perm.refl _, rfl⟩
  rw [writeToRam] at hwritten
  simp only [Prod.mk.injEq] at hwritten
  exact absurd (congrFun hwritten.2.2 5) (by decide +kernel)

end Bdev
end IowarpCore
