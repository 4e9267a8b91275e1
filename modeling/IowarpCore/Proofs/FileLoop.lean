/-
When the loops over a file's blocks end.

`block_idx` moves only when a block is submitted, and nothing is submitted once all bytes
are there: a loop that has its bytes before the last batch makes the same pass for ever.
How many bytes it has is up to the layer below, which may transfer less than was asked, but
never more than the blocks hold.
-/
import IowarpCore.Proofs.Backend

namespace IowarpCore
namespace Bdev

variable {aio : AsyncIo} {ioDepth : Nat} {length : UInt64} {s s' : FileState}

/-! ### Ends -/

theorem FileEnds.next (h : FileEnds aio ioDepth length s)
    (hpass : filePass aio ioDepth length s = .inr s') : FileEnds aio ioDepth length s' := by
  cases h with
  | returns hret =>
    rw [hpass] at hret
    cases hret
  | again hagain hrest =>
    rw [hpass, Sum.inr.injEq] at hagain
    rw [hagain]
    exact hrest

/-- A loop that is back where it was does not end. -/
theorem FileEnds.moves (h : FileEnds aio ioDepth length s) :
    filePass aio ioDepth length s ≠ .inr s := by
  induction h with
  | returns hret =>
    rw [hret]
    exact Sum.inl_ne_inr
  | again hagain _ ih =>
    intro hsame
    rw [hagain, Sum.inr.injEq] at hsame
    rw [hsame] at ih hagain
    exact ih hagain

/-- Nothing can be submitted. -/
def Stuck (ioDepth : Nat) (length : UInt64) (s : FileState) : Prop :=
  ioDepth = 0 ∨ length - s.totalBytes = 0

theorem filePass_stuck (hne : s.left ≠ []) (hstuck : Stuck ioDepth length s) :
    filePass aio ioDepth length s = .inr s := by
  obtain ⟨b, bs, hleft⟩ := List.exists_cons_of_ne_nil hne
  rw [filePass, if_neg (by simp [hleft]), hleft, submitBatch_stuck hstuck b bs]
  simp only [waitBatch, ne_eq, not_true_eq_false, if_false, List.length_nil, Nat.add_zero]
  rw [← hleft]

/-! ### One pass, whatever the layer below does -/

/-- The blocks of the submissions. -/
def pendingBlocks (pending : List PendingIo) : List Block := pending.map PendingIo.block

theorem submitBatch_spec {totalBytes dataOffset : UInt64} {submitted : Nat} {rc : UInt32}
    (blocks : List Block) : ∀ {pending pending' : List PendingIo} {left : List Block},
      submitBatch aio ioDepth length totalBytes dataOffset submitted pending blocks =
        (rc, pending', left) →
      pendingBlocks pending ++ blocks = pendingBlocks pending' ++ left ∧
        (rc = 0 → length - totalBytes ≠ 0 → left ≠ [] → ioDepth ≤ pending'.length) ∧
        (pending.length ≤ ioDepth → pending'.length ≤ ioDepth) := by
  induction blocks with
  | nil =>
    intro pending pending' left h
    simp only [submitBatch, Prod.mk.injEq] at h
    obtain ⟨_, hpending, hleft⟩ := h
    rw [← hpending, ← hleft]
    exact ⟨rfl, fun _ _ hne => absurd rfl hne, id⟩
  | cons b bs ih =>
    intro pending pending' left h
    unfold submitBatch at h
    by_cases hless : pending.length < ioDepth
    · rw [if_pos hless] at h
      dsimp only at h
      by_cases hfull : length - totalBytes = 0
      · rw [if_pos hfull] at h
        simp only [Prod.mk.injEq] at h
        obtain ⟨_, hpending, hleft⟩ := h
        rw [← hpending, ← hleft]
        exact ⟨rfl, fun _ hne => absurd hfull hne, id⟩
      · rw [if_neg hfull] at h
        -- Both kinds of submission are pending the same way.
        have hgo : ∀ p : PendingIo, p.block = b →
            submitBatch aio ioDepth length totalBytes dataOffset submitted (pending ++ [p]) bs =
              (rc, pending', left) →
            pendingBlocks pending ++ b :: bs = pendingBlocks pending' ++ left ∧
              (rc = 0 → length - totalBytes ≠ 0 → left ≠ [] → ioDepth ≤ pending'.length) ∧
              (pending.length ≤ ioDepth → pending'.length ≤ ioDepth) := by
          intro p hp hsubmit
          obtain ⟨hblocks, hdeep, hroom⟩ := ih hsubmit
          refine ⟨?_, hdeep, fun _ => hroom ?_⟩
          · rw [← hblocks, pendingBlocks, pendingBlocks, List.map_append, List.map_singleton, hp,
              List.append_assoc, List.singleton_append]
          · rw [List.length_append, List.length_singleton]
            omega
        cases hio : aio (submitted + pending.length) (min (length - totalBytes) b.size) with
        | noContext =>
          rw [hio] at h
          simp only [Prod.mk.injEq] at h
          obtain ⟨hrc, hpending, hleft⟩ := h
          rw [← hpending, ← hleft, ← hrc]
          exact ⟨rfl, fun hzero => absurd hzero (by decide), id⟩
        | submitFailed =>
          rw [hio] at h
          simp only [Prod.mk.injEq] at h
          obtain ⟨hrc, hpending, hleft⟩ := h
          rw [← hpending, ← hleft, ← hrc]
          exact ⟨rfl, fun hzero => absurd hzero (by decide), id⟩
        | failed landed =>
          rw [hio] at h
          exact hgo _ rfl h
        | done transferred =>
          rw [hio] at h
          exact hgo _ rfl h
    · rw [if_neg hless] at h
      simp only [Prod.mk.injEq] at h
      obtain ⟨_, hpending, hleft⟩ := h
      rw [← hpending, ← hleft]
      exact ⟨rfl, fun _ _ _ => Nat.le_of_not_lt hless, id⟩

/-- No more is counted than the blocks hold and the length asks for. -/
theorem waitBatch_le {rc : UInt32} (pending : List PendingIo) :
    ∀ {totalBytes dataOffset totalBytes' dataOffset' : UInt64}, totalBytes ≤ length →
      waitBatch length pending totalBytes dataOffset = (rc, totalBytes', dataOffset') →
      totalBytes' ≤ length ∧
        totalBytes'.toNat ≤ totalBytes.toNat + sizeSum (pendingBlocks pending) := by
  induction pending with
  | nil =>
    intro totalBytes dataOffset totalBytes' dataOffset' hle h
    simp only [waitBatch, Prod.mk.injEq] at h
    rw [← h.2.1]
    exact ⟨hle, Nat.le_add_right _ _⟩
  | cons p rest ih =>
    intro totalBytes dataOffset totalBytes' dataOffset' hle h
    have hsum : sizeSum (pendingBlocks (p :: rest)) =
        p.block.size.toNat + sizeSum (pendingBlocks rest) := rfl
    unfold waitBatch at h
    by_cases hfull : length - totalBytes = 0
    · simp only [hfull, if_true, Prod.mk.injEq] at h
      rw [← h.2.1]
      exact ⟨hle, Nat.le_add_right _ _⟩
    · simp only [hfull, if_false] at h
      cases htransferred : p.transferred with
      | none =>
        rw [htransferred] at h
        simp only [Prod.mk.injEq] at h
        rw [← h.2.1]
        exact ⟨hle, Nat.le_add_right _ _⟩
      | some transferred =>
        rw [htransferred] at h
        have hnat := UInt64.le_iff_toNat_le.mp hle
        have hlt := length.toNat_lt
        have hstep : (totalBytes + min transferred (min (length - totalBytes) p.block.size)).toNat ≤
            length.toNat ∧
            (totalBytes + min transferred (min (length - totalBytes) p.block.size)).toNat ≤
              totalBytes.toNat + p.block.size.toNat := by
          rw [UInt64.toNat_add, UInt64.toNat_min, UInt64.toNat_min,
            UInt64.toNat_sub_of_le _ _ hle]
          omega
        obtain ⟨hle', hsum'⟩ := ih (UInt64.le_iff_toNat_le.mpr hstep.1) h
        exact ⟨hle', by omega⟩

/-- A pass that goes on, with bytes left, takes a whole batch off, or all blocks. -/
theorem filePass_progress (hle : s.totalBytes ≤ length)
    (hfull : length - s.totalBytes ≠ 0) (hpass : filePass aio ioDepth length s = .inr s') :
    s'.left = s.left.drop ioDepth ∧ s'.totalBytes ≤ length ∧
      s'.totalBytes.toNat ≤ s.totalBytes.toNat + sizeSum (s.left.take ioDepth) := by
  unfold filePass at hpass
  by_cases hempty : s.left.isEmpty = true
  · rw [if_pos hempty] at hpass
    cases hpass
  rw [if_neg hempty] at hpass
  obtain ⟨rc, pending, left, hsubmit⟩ : ∃ rc pending left,
      submitBatch aio ioDepth length s.totalBytes s.dataOffset s.submitted [] s.left =
        (rc, pending, left) := ⟨_, _, _, rfl⟩
  rw [hsubmit] at hpass
  dsimp only at hpass
  by_cases hrc : rc = 0
  · rw [if_neg (not_not.mpr hrc)] at hpass
    obtain ⟨rc', totalBytes, dataOffset, hwait⟩ : ∃ rc' totalBytes dataOffset,
        waitBatch length pending s.totalBytes s.dataOffset = (rc', totalBytes, dataOffset) :=
      ⟨_, _, _, rfl⟩
    rw [hwait] at hpass
    dsimp only at hpass
    by_cases hrc' : rc' = 0
    · rw [if_neg (not_not.mpr hrc'), Sum.inr.injEq] at hpass
      obtain ⟨hblocks, hdeep, hroom⟩ := submitBatch_spec s.left hsubmit
      obtain ⟨hle', hsum⟩ := waitBatch_le pending hle hwait
      have hsplit : s.left = pendingBlocks pending ++ left := hblocks
      have hlength : (pendingBlocks pending).length = pending.length := List.length_map ..
      have hpending : pending.length ≤ ioDepth := hroom (Nat.zero_le _)
      have hbatch : s.left.take ioDepth = pendingBlocks pending ∧ s.left.drop ioDepth = left := by
        by_cases hnil : left = []
        · rw [hsplit, hnil, List.append_nil]
          exact ⟨List.take_of_length_le (by omega), List.drop_of_length_le (by omega)⟩
        · have heq : (pendingBlocks pending).length = ioDepth := by
            have := hdeep hrc hfull hnil
            omega
          rw [hsplit, ← heq]
          exact ⟨List.take_left, List.drop_left⟩
      rw [← hpass, hbatch.1, hbatch.2]
      exact ⟨rfl, hle', hsum⟩
    · rw [if_pos hrc'] at hpass
      cases hpass
  · rw [if_pos hrc] at hpass
    cases hpass

/-- `fileLoop` counts the passes, and finds a result exactly if the loop ends. -/
theorem fileLoop_isSome_iff : ∀ (passes : Nat) (s : FileState), s.left.length ≤ passes →
    ((fileLoop aio ioDepth length passes s.left s.submitted s.totalBytes s.dataOffset).isSome ↔
      FileEnds aio ioDepth length s) := by
  intro passes
  induction passes with
  | zero =>
    intro s hlen
    have hnil : s.left = [] := List.length_eq_zero_iff.mp (by omega)
    have hends : FileEnds aio ioDepth length s :=
      .returns (r := (0, s.totalBytes)) (by rw [filePass, hnil]; rfl)
    rw [hnil, fileLoop]
    exact ⟨fun _ => hends, fun _ => rfl⟩
  | succ passes ih =>
    intro s hlen
    cases hleft : s.left with
    | nil =>
      have hends : FileEnds aio ioDepth length s :=
        .returns (r := (0, s.totalBytes)) (by rw [filePass, hleft]; rfl)
      rw [fileLoop]
      exact ⟨fun _ => hends, fun _ => rfl⟩
    | cons b bs =>
      obtain ⟨rc, pending, left, hsubmit⟩ : ∃ rc pending left,
          submitBatch aio ioDepth length s.totalBytes s.dataOffset s.submitted [] (b :: bs) =
            (rc, pending, left) := ⟨_, _, _, rfl⟩
      have hpass : filePass aio ioDepth length s =
          if rc ≠ 0 then .inl (rc, s.totalBytes)
          else if (waitBatch length pending s.totalBytes s.dataOffset).1 ≠ 0 then
            .inl ((waitBatch length pending s.totalBytes s.dataOffset).1,
              (waitBatch length pending s.totalBytes s.dataOffset).2.1)
          else .inr ⟨left, s.submitted + pending.length,
            (waitBatch length pending s.totalBytes s.dataOffset).2.1,
            (waitBatch length pending s.totalBytes s.dataOffset).2.2⟩ := by
        rw [filePass, hleft, if_neg (by simp), hsubmit]
      unfold fileLoop
      rw [hsubmit]
      dsimp only
      by_cases hrc : rc = 0
      · rw [if_neg (not_not.mpr hrc)] at hpass ⊢
        obtain ⟨hblocks, _, _⟩ := submitBatch_spec (b :: bs) hsubmit
        have hsplit : b :: bs = pendingBlocks pending ++ left := hblocks
        by_cases hempty : pending = []
        · -- Nothing was submitted: the pass leads back to where it began.
          have hsame : filePass aio ioDepth length s = .inr s := by
            rw [hempty] at hsplit
            rw [hpass, hempty, waitBatch, if_neg (by simp), show left = s.left from
              hleft ▸ hsplit.symm]
            rfl
          rw [hempty, List.isEmpty_nil, if_pos rfl]
          exact ⟨fun hsome => absurd hsome (by simp), fun hends => absurd hsame hends.moves⟩
        · rw [if_neg (by simpa using hempty)]
          by_cases hrc' : (waitBatch length pending s.totalBytes s.dataOffset).1 = 0
          · rw [if_neg (not_not.mpr hrc')] at hpass ⊢
            have hshorter : left.length ≤ passes := by
              have hlength := congrArg List.length hsplit
              have hpos := List.length_pos_iff.mpr hempty
              rw [List.length_append, pendingBlocks, List.length_map] at hlength
              rw [hleft] at hlen
              omega
            have hnext := ih ⟨left, s.submitted + pending.length,
              (waitBatch length pending s.totalBytes s.dataOffset).2.1,
              (waitBatch length pending s.totalBytes s.dataOffset).2.2⟩ hshorter
            rw [Option.isSome_map, hnext]
            exact ⟨fun hends => .again hpass hends, fun hends => hends.next hpass⟩
          · rw [if_pos hrc'] at hpass ⊢
            exact ⟨fun _ => .returns hpass, fun _ => rfl⟩
      · rw [if_pos hrc] at hpass ⊢
        exact ⟨fun _ => .returns hpass, fun _ => rfl⟩

/-- Two passes tell that the second block is never submitted. -/
theorem fileLoop_twoBlocks : (fileLoop completeIo 1 5 2 twoBlocks 0 0 0).isSome ↔
    FileEnds completeIo 1 5 ⟨twoBlocks, 0, 0, 0⟩ :=
  fileLoop_isSome_iff 2 ⟨twoBlocks, 0, 0, 0⟩ (by decide)

/-! ### All passes -/

/-- The blocks before the last batch. -/
def beforeLastBatch (ioDepth : Nat) (blocks : List Block) : List Block :=
  blocks.take (ioDepth * ((blocks.length - 1) / ioDepth))

theorem sizeSum_take_mono (blocks : List Block) {m n : Nat} (h : m ≤ n) :
    sizeSum (blocks.take m) ≤ sizeSum (blocks.take n) := by
  have hsplit : blocks.take n = blocks.take m ++ (blocks.take n).drop m := by
    conv_lhs => rw [← List.take_append_drop m (blocks.take n), List.take_take, Nat.min_eq_left h]
  rw [hsplit, sizeSum_append]
  exact Nat.le_add_right _ _

/-- A batch that begins before the last block is not behind the last batch. -/
theorem mul_le_lastBatch {n j : Nat} (hdepth : 0 < ioDepth) (h : ioDepth * j < n) :
    ioDepth * j ≤ ioDepth * ((n - 1) / ioDepth) := by
  refine Nat.mul_le_mul_left _ ((Nat.le_div_iff_mul_le hdepth).mpr ?_)
  rw [Nat.mul_comm]
  omega

/-- With a byte left for the last batch the loop ends, whatever the layer below does. -/
theorem fileEnds_of_short {blocks : List Block} (hdepth : 0 < ioDepth)
    (hshort : sizeSum (beforeLastBatch ioDepth blocks) < length.toNat) :
    ∀ (n j : Nat) (s : FileState), s.left.length ≤ n → s.left = blocks.drop (ioDepth * j) →
      s.totalBytes ≤ length → s.totalBytes.toNat ≤ sizeSum (blocks.take (ioDepth * j)) →
      FileEnds aio ioDepth length s := by
  intro n
  induction n with
  | zero =>
    intro j s hlen _ _ _
    have hnil : s.left = [] := List.length_eq_zero_iff.mp (by omega)
    exact .returns (r := (0, s.totalBytes)) (by rw [filePass, hnil]; rfl)
  | succ n ih =>
    intro j s hlen hleft hle hsum
    by_cases hnil : s.left = []
    · exact .returns (r := (0, s.totalBytes)) (by rw [filePass, hnil]; rfl)
    have hbefore : ioDepth * j < blocks.length := by
      by_contra hge
      rw [List.drop_of_length_le (by omega)] at hleft
      exact hnil hleft
    have hbytes : s.totalBytes.toNat < length.toNat := by
      have hmono := sizeSum_take_mono blocks (mul_le_lastBatch hdepth hbefore)
      unfold beforeLastBatch at hshort
      omega
    have hfull : length - s.totalBytes ≠ 0 := fun hz => by
      have := (remaining_eq_zero hle).mp hz
      omega
    cases hpass : filePass aio ioDepth length s with
    | inl r => exact .returns hpass
    | inr s' =>
      obtain ⟨hleft', hle', hsum'⟩ := filePass_progress hle hfull hpass
      refine .again hpass (ih (j + 1) s' ?_ ?_ hle' ?_)
      · have hpos := List.length_pos_iff.mpr hnil
        rw [hleft', List.length_drop]
        omega
      · rw [hleft', hleft, List.drop_drop, Nat.mul_succ]
      · have htake : blocks.take (ioDepth * (j + 1)) =
            blocks.take (ioDepth * j) ++ s.left.take ioDepth := by
          rw [hleft, Nat.mul_succ, List.take_add]
        rw [htake, sizeSum_append]
        omega

/-- The head of the loop after `j` batches that were transferred in full. -/
def afterBatches (ioDepth : Nat) (length : UInt64) (blocks : List Block) (j : Nat) : FileState :=
  ⟨blocks.drop (ioDepth * j), (blocks.take (ioDepth * j)).length,
    advance length (blocks.take (ioDepth * j)) 0, advance length (blocks.take (ioDepth * j)) 0⟩

theorem filePass_complete {blocks : List Block} {j : Nat}
    (hbefore : ioDepth * j < blocks.length)
    (hfull : length - (afterBatches ioDepth length blocks j).totalBytes ≠ 0) :
    filePass completeIo ioDepth length (afterBatches ioDepth length blocks j) =
      .inr (afterBatches ioDepth length blocks (j + 1)) := by
  have hzero : (0 : UInt64) ≤ length := UInt64.zero_le
  have hle : (afterBatches ioDepth length blocks j).totalBytes ≤ length := advance_le _ hzero
  have hne : blocks.drop (ioDepth * j) ≠ [] := fun hnil => by
    have := congrArg List.length hnil
    rw [List.length_drop, List.length_nil] at this
    omega
  have hsubmit := @submitBatch_complete length _ ioDepth
    (afterBatches ioDepth length blocks j).submitted hfull (blocks.drop (ioDepth * j)) []
    (Nat.zero_le _)
  rw [List.nil_append, List.length_nil, Nat.sub_zero] at hsubmit
  have hnext : blocks.take (ioDepth * (j + 1)) =
      blocks.take (ioDepth * j) ++ (blocks.drop (ioDepth * j)).take ioDepth := by
    rw [Nat.mul_succ, List.take_add]
  have hadvance : advance length (blocks.take (ioDepth * (j + 1))) 0 =
      advance length ((blocks.drop (ioDepth * j)).take ioDepth)
        (advance length (blocks.take (ioDepth * j)) 0) := by
    rw [hnext]
    exact List.foldl_append
  have hleft : (afterBatches ioDepth length blocks j).left = blocks.drop (ioDepth * j) := rfl
  have hoffset : (afterBatches ioDepth length blocks j).dataOffset =
      (afterBatches ioDepth length blocks j).totalBytes := rfl
  rw [filePass, hleft, if_neg (by simpa using hne), hoffset, hsubmit]
  dsimp only
  rw [waitBatch_complete _ (UInt64.le_refl _) hle]
  simp only [ne_eq, not_true_eq_false, if_false]
  unfold afterBatches
  rw [hadvance, hnext, List.length_append, List.length_map, List.drop_drop, Nat.mul_succ]

/-- A loop that ends has bytes left at the head of every batch. -/
theorem bytes_left_of_fileEnds {blocks : List Block}
    (hends : FileEnds completeIo ioDepth length ⟨blocks, 0, 0, 0⟩) : ∀ j : Nat,
      ioDepth * j < blocks.length →
      FileEnds completeIo ioDepth length (afterBatches ioDepth length blocks j) ∧
        sizeSum (blocks.take (ioDepth * j)) < length.toNat := by
  have hzero : (0 : UInt64) ≤ length := UInt64.zero_le
  -- What ends is not stuck.
  have hbytes : ∀ j, ioDepth * j < blocks.length →
      FileEnds completeIo ioDepth length (afterBatches ioDepth length blocks j) →
      length - (afterBatches ioDepth length blocks j).totalBytes ≠ 0 := by
    intro j hbefore hj hfull
    refine hj.moves (filePass_stuck (fun hnil => ?_) (Or.inr hfull))
    have hlen := congrArg List.length hnil
    rw [afterBatches, List.length_drop, List.length_nil] at hlen
    omega
  have hstates : ∀ j, ioDepth * j < blocks.length →
      FileEnds completeIo ioDepth length (afterBatches ioDepth length blocks j) := by
    intro j
    induction j with
    | zero =>
      intro _
      rw [afterBatches, Nat.mul_zero]
      exact hends
    | succ j ih =>
      intro hbefore
      have hbefore' : ioDepth * j < blocks.length := by
        rw [Nat.mul_succ] at hbefore
        omega
      exact (ih hbefore').next
        (filePass_complete hbefore' (hbytes j hbefore' (ih hbefore')))
  intro j hbefore
  refine ⟨hstates j hbefore, ?_⟩
  have hle : (afterBatches ioDepth length blocks j).totalBytes ≤ length := advance_le _ hzero
  have hne := hbytes j hbefore (hstates j hbefore)
  rw [Ne, remaining_eq_zero hle, afterBatches, advance_toNat _ hzero] at hne
  have hstart : (0 : UInt64).toNat = 0 := rfl
  omega

/--
**When the file loops end.**  Whatever the layer below makes of the submissions, as long as
each completes, `WriteToFile` and `ReadFromFile` come to an end exactly if there is no block,
or if batches have a block and the blocks before the last batch hold less than the length.
-/
theorem file_loops_end_iff (ioDepth : Nat) (length : UInt64) (blocks : List Block) :
    (∀ aio, FileEnds aio ioDepth length ⟨blocks, 0, 0, 0⟩) ↔
      blocks = [] ∨
        (0 < ioDepth ∧ sizeSum (beforeLastBatch ioDepth blocks) < length.toNat) := by
  refine ⟨fun hends => ?_, ?_⟩
  · by_cases hnil : blocks = []
    · exact Or.inl hnil
    have hpos := List.length_pos_iff.mpr hnil
    have hdepth : 0 < ioDepth := by
      by_contra hzero
      exact (hends completeIo).moves
        (filePass_stuck (s := ⟨blocks, 0, 0, 0⟩) hnil (Or.inl (by omega)))
    have hlast : ioDepth * ((blocks.length - 1) / ioDepth) < blocks.length := by
      have := Nat.mul_div_le (blocks.length - 1) ioDepth
      omega
    exact Or.inr ⟨hdepth, (bytes_left_of_fileEnds (hends completeIo) _ hlast).2⟩
  · rintro (hnil | ⟨hdepth, hshort⟩) aio
    · exact .returns (r := (0, 0)) (by rw [filePass, hnil]; rfl)
    · refine fileEnds_of_short hdepth hshort blocks.length 0 _ (Nat.le_refl _) ?_ UInt64.zero_le ?_
      · rw [Nat.mul_zero, List.drop_zero]
      · exact Nat.zero_le _

/-- The first of two blocks takes all bytes, and the second is not submitted any more. -/
theorem second_block_for_ever :
    ¬∀ (aio : AsyncIo) (ioDepth : Nat) (length : UInt64) (blocks : List Block),
      FileEnds aio ioDepth length ⟨blocks, 0, 0, 0⟩ := by
  intro h
  have hpass : filePass completeIo 1 5 ⟨twoBlocks, 0, 0, 0⟩ = .inr ⟨[⟨5, 5, 0⟩], 1, 5, 5⟩ := by
    decide +kernel
  refine ((h completeIo 1 5 twoBlocks).next hpass).moves ?_
  decide +kernel

end Bdev
end IowarpCore
