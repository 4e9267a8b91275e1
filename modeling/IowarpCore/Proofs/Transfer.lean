/-
What a batch of writes does to the bytes of a blob.

`ioPlan` cuts a transfer into pieces, one for each block it touches.  As long as the
numbers stay below 2^64, the pieces are exact: every offset of the transfer that lies
in the blob is in a piece, at the position `locate` gives (`ioPlan_complete`), and a
piece holds nothing else (`ioPlan_sound`).  When every write of the batch is complete,
the order in which the devices serve them does not matter, since no two blocks of a
blob share a position (`writes_spec`).
-/
import IowarpCore.Proofs.Ownership

namespace IowarpCore
namespace Cte

open Bdev (Request Reply Block Devices Device Op overlay)
open Extent (Apart)
open Co

/-! ### One request -/

/-- A transfer moves no more than was asked for. -/
theorem transfer_landed_le (dev : Device) (block : Block) (length : UInt64) (io : Bdev.IoResult) :
    (Bdev.transfer dev block length io).2.2.toNat ≤ length.toNat := by
  unfold Bdev.transfer
  cases dev.bdevType with
  | ram =>
    dsimp only
    by_cases hout : block.offset + min length block.size > dev.fileSize
    · rw [if_pos hout]
      simp
    · rw [if_neg hout]
      simp only [UInt64.toNat_min]
      omega
  | file =>
    cases io with
    | noContext => simp
    | submitFailed => simp
    | failed landed =>
      simp only [UInt64.toNat_min]
      omega
    | done transferred =>
      simp only [UInt64.toNat_min]
      omega

/-- A transfer that reports as much as was asked for has moved it. -/
theorem transfer_full {dev : Device} {block : Block} {length : UInt64} {io : Bdev.IoResult}
    (hpos : length ≠ 0) (hfull : (Bdev.transfer dev block length io).2.1 = length) :
    (Bdev.transfer dev block length io).2.2 = length := by
  unfold Bdev.transfer at hfull ⊢
  cases hdev : dev.bdevType with
  | ram =>
    rw [hdev] at hfull
    dsimp only at hfull ⊢
    by_cases hout : block.offset + min length block.size > dev.fileSize
    · rw [if_pos hout] at hfull
      exact absurd hfull.symm hpos
    · rw [if_neg hout] at hfull ⊢
      exact hfull
  | file =>
    rw [hdev] at hfull
    cases io with
    | noContext => exact absurd hfull.symm hpos
    | submitFailed => exact absurd hfull.symm hpos
    | failed landed => exact absurd hfull.symm hpos
    | done transferred => exact hfull

/-- The devices hold the same bytes. -/
def SameBytes (d d' : Devices) : Prop := ∀ p a, d'.byteAt p a = d.byteAt p a

theorem SameBytes.refl (d : Devices) : SameBytes d d := fun _ _ => rfl

theorem SameBytes.trans {d d' d'' : Devices} (h : SameBytes d d') (h' : SameBytes d' d'') :
    SameBytes d d'' := fun p a => (h' p a).trans (h p a)

variable {p : PoolId} {q : Request} {r : Reply} {a : Nat} {qs : List Request}

/-- The bytes after a request that a device handled. -/
theorem byteAt_replaced {d d' : Devices} {dev' : Device}
    (hdevs : d'.devs = d.devs.insertOrAssign p dev') (p' : PoolId) (a : Nat) :
    d'.byteAt p' a = if p' = p then dev'.contents a else d.byteAt p' a := by
  unfold Devices.byteAt
  rw [hdevs, AMap.find?_insertOrAssign]
  by_cases hp : p' = p
  · rw [if_pos hp, if_pos hp]
  · rw [if_neg hp, if_neg hp]

/-- Only writes change bytes. -/
theorem sameBytes_of_serve {d d' : Devices} (hs : ServesAny q d r d')
    (hop : ∀ b f n, q.op ≠ .write b f n) : SameBytes d d' := by
  obtain ⟨e, hserve⟩ := hs
  rcases serve_cases hserve with ⟨_, _, hd'⟩ | ⟨dev, hdev, _, hdevs, _⟩
  · rw [hd']
    exact SameBytes.refl d
  · intro p a
    rw [byteAt_replaced hdevs]
    by_cases hp : p = q.pool
    · have hcontents : (dev.handle e q.op).2.contents = dev.contents := by
        cases hq : q.op with
        | allocateBlocks n => rfl
        | freeBlocks l => rfl
        | write b f n => exact absurd hq (hop b f n)
        | read b n => rfl
      rw [if_pos hp, hcontents, Devices.byteAt, hp, hdev]
    · rw [if_neg hp]

section

variable {S : Request → Devices → Reply → Devices → Prop}
  (hS : ∀ q d r d', S q d r d' → ServesAny q d r d') {d d' : Devices}

include hS

theorem sameBytes_freesBlocks {blocks : List BlobBlock} (h : FreesBlocks S blocks d d') :
    SameBytes d d' := by
  refine h.invariant (I := SameBytes d) ?_ (SameBytes.refl d)
  intro pool query bs d₁ r d₂ hd₁ hserve
  exact hd₁.trans (sameBytes_of_serve (hS _ _ _ _ hserve) (by simp))

theorem sameBytes_allocsFail {size : UInt64} (h : AllocsFail S size d d') : SameBytes d d' := by
  refine h.invariant (I := SameBytes d) ?_ (SameBytes.refl d)
  intro pool query d₁ r d₂ hd₁ hserve _
  exact hd₁.trans (sameBytes_of_serve (hS _ _ _ _ hserve) (by simp))

theorem sameBytes_grants {size : UInt64} {new : BlobBlock} (h : Grants S size new d d') :
    SameBytes d d' := by
  obtain ⟨_, _, _, _, _, _, hfails, hserve, _, _⟩ := h
  exact (sameBytes_allocsFail hS hfails).trans (sameBytes_of_serve (hS _ _ _ _ hserve) (by simp))

end

/-- The write covers a position. -/
def Covers (q : Request) (p : PoolId) (a : Nat) : Prop :=
  ∃ block f length, q.op = .write block f length ∧ q.pool = p ∧ block.offset.toNat ≤ a ∧
    a < block.offset.toNat + length.toNat

/-- What the write leaves at a position it covers. -/
def writtenAt (q : Request) (a : Nat) : UInt8 :=
  match q.op with
  | .write block f _ => f (a - block.offset.toNat)
  | _ => 0

/-- A position no write covers keeps its byte, whatever becomes of the write. -/
theorem byteAt_of_not_covers {d d' : Devices}
    (hs : ServesAny q d r d') (h : ¬Covers q p a) : d'.byteAt p a = d.byteAt p a := by
  cases hop : q.op with
  | allocateBlocks n => exact sameBytes_of_serve hs (by simp [hop]) p a
  | freeBlocks l => exact sameBytes_of_serve hs (by simp [hop]) p a
  | read b n => exact sameBytes_of_serve hs (by simp [hop]) p a
  | write block f length =>
    obtain ⟨e, hserve⟩ := hs
    rcases serve_cases hserve with ⟨_, _, hd'⟩ | ⟨dev, hdev, _, hdevs, _⟩
    · rw [hd']
    · rw [byteAt_replaced hdevs]
      by_cases hp : p = q.pool
      · rw [if_pos hp, hop]
        have hlanded := transfer_landed_le dev block length e.io
        show overlay dev.contents block.offset.toNat
          (Bdev.transfer dev block length e.io).2.2.toNat f a = _
        have hout : ¬(block.offset.toNat ≤ a ∧ a < block.offset.toNat +
            (Bdev.transfer dev block length e.io).2.2.toNat) := by
          rintro ⟨hle, hlt⟩
          exact h ⟨block, f, length, hop, hp.symm, hle, by omega⟩
        rw [overlay, if_neg hout, Devices.byteAt, hp, hdev]
      · rw [if_neg hp]

/-- A complete write leaves its data. -/
theorem byteAt_of_covers {d d' : Devices}
    (hs : ServesAny q d r d') (hfull : fullTransfer q r = true) (h : Covers q p a) :
    d'.byteAt p a = writtenAt q a := by
  obtain ⟨block, f, length, hop, hpool, hle, hlt⟩ := h
  have hpos : length ≠ 0 := by
    intro hzero
    rw [hzero] at hlt
    simp only [UInt64.toNat_zero] at hlt
    omega
  have hbytes : r.bytes = length := by
    rw [fullTransfer, hop] at hfull
    simpa using hfull
  obtain ⟨e, hserve⟩ := hs
  rcases serve_cases hserve with ⟨_, hr, _⟩ | ⟨dev, hdev, hr, hdevs, _⟩
  · rw [hr] at hbytes
    exact absurd hbytes.symm hpos
  · rw [hr, hop] at hbytes
    have hlanded : (Bdev.transfer dev block length e.io).2.2 = length := transfer_full hpos hbytes
    rw [byteAt_replaced hdevs, if_pos hpool.symm, hop]
    show overlay dev.contents block.offset.toNat
      (Bdev.transfer dev block length e.io).2.2.toNat f a = _
    rw [hlanded, overlay, if_pos ⟨hle, hlt⟩, writtenAt, hop]

/-! ### A batch -/

/-- No write of the batch covers the position. -/
theorem byteAt_batch_of_not_covers {d d' : Devices} {rs : List Reply} (hs : ServeAll ServesAny qs d rs d') (h : ∀ q ∈ qs, ¬Covers q p a) :
    d'.byteAt p a = d.byteAt p a := by
  refine hs.invariant (I := fun d₁ => d₁.byteAt p a = d.byteAt p a) ?_ rfl
  intro q hq d₁ r d₂ hd₁ hserve
  rw [byteAt_of_not_covers hserve (h q hq), hd₁]

/-- Where every write that covers the position brings the same byte, that byte is there when
all are complete, in whatever order they came. -/
theorem byteAt_batch_of_covers {d d' : Devices} {rs : List Reply} {v : UInt8} (hs : ServeAll ServesAny qs d rs d')
    (hfull : ∀ x ∈ qs.zip rs, fullTransfer x.1 x.2 = true)
    (hsame : ∀ q ∈ qs, Covers q p a → writtenAt q a = v)
    (h : d.byteAt p a = v ∨ ∃ q ∈ qs, Covers q p a) : d'.byteAt p a = v := by
  induction hs with
  | nil d =>
    rcases h with h | ⟨q, hq, _⟩
    · exact h
    · simp at hq
  | @pick qs₁ qs₂ q rs₁ rs₂ r d d₁ d₂ hserve hlen hrest ih =>
    have hzip : (qs₁ ++ q :: qs₂).zip (rs₁ ++ r :: rs₂) =
        qs₁.zip rs₁ ++ (q, r) :: qs₂.zip rs₂ := by
      rw [List.zip_append hlen.symm, List.zip_cons_cons]
    have hzip' : (qs₁ ++ qs₂).zip (rs₁ ++ rs₂) = qs₁.zip rs₁ ++ qs₂.zip rs₂ :=
      List.zip_append hlen.symm
    rw [hzip] at hfull
    refine ih ?_ ?_ ?_
    · intro x hx
      rw [hzip'] at hx
      refine hfull x ?_
      rcases List.mem_append.mp hx with hx | hx
      · exact List.mem_append_left _ hx
      · exact List.mem_append_right _ (List.mem_cons_of_mem _ hx)
    · intro q' hq'
      refine hsame q' ?_
      rcases List.mem_append.mp hq' with hq' | hq'
      · exact List.mem_append_left _ hq'
      · exact List.mem_append_right _ (List.mem_cons_of_mem _ hq')
    · by_cases hcov : Covers q p a
      · left
        rw [byteAt_of_covers hserve (hfull (q, r) (by simp)) hcov]
        exact hsame q (by simp) hcov
      · rcases h with h | ⟨q', hq', hcov'⟩
        · left
          rw [byteAt_of_not_covers hserve hcov, h]
        · right
          refine ⟨q', ?_, hcov'⟩
          rcases List.mem_append.mp hq' with hq' | hq'
          · exact List.mem_append_left _ hq'
          · rcases List.mem_cons.mp hq' with hq' | hq'
            · rw [hq'] at hcov'
              exact absurd hcov' hcov
            · exact List.mem_append_right _ hq'

/-- A batch that is reported complete was complete, write by write. -/
theorem full_of_transferError : ∀ {rs : List Reply},
    transferError qs (awaited fullTransfer qs rs) = 0 →
      ∀ x ∈ qs.zip rs, fullTransfer x.1 x.2 = true := by
  induction qs with
  | nil =>
    intro rs _ x hx
    simp at hx
  | cons q qs ih =>
    intro rs h x hx
    cases rs with
    | nil => simp at hx
    | cons r rs =>
      unfold awaited at h
      by_cases hfull : fullTransfer q r = true
      · rw [if_pos hfull, transferError, List.zip_cons_cons, List.all_cons] at h
        simp only [hfull, Bool.true_and] at h
        rw [List.zip_cons_cons, List.mem_cons] at hx
        rcases hx with hx | hx
        · rw [hx]
          exact hfull
        · exact ih h x hx
      · rw [if_neg hfull, transferError, List.zip_cons_cons, List.all_cons] at h
        simp only [hfull, Bool.false_and, Bool.false_eq_true, if_false] at h
        exact absurd h (by decide)

/-! ### The pieces of a transfer -/

section

variable {size offset : UInt64}

/-- The piece lies inside its block, and its bytes are the bytes of the blob from
`start` on that `bufferOffset` says. -/
structure Piece.Exact (p : Piece) (size offset : UInt64) (bs : List BlobBlock) (start : Nat) :
    Prop where
  mem : p.block ∈ bs
  inside : p.startInBlock.toNat + p.size.toNat ≤ p.block.size.toNat
  bounds : start ≤ offset.toNat + p.bufferOffset.toNat ∧
    p.bufferOffset.toNat + p.size.toNat ≤ size.toNat
  located : ∀ j < p.size.toNat,
    locate bs (offset.toNat + p.bufferOffset.toNat + j - start) =
      some (p.block.bdevClient, p.block.targetOffset.toNat + p.startInBlock.toNat + j)

/-- A piece of the blocks behind the first. -/
theorem Piece.Exact.behind {p : Piece} {b : BlobBlock} {bs : List BlobBlock} {start : Nat}
    (h : p.Exact size offset bs (start + b.size.toNat)) : p.Exact size offset (b :: bs) start where
  mem := List.mem_cons_of_mem _ h.mem
  inside := h.inside
  bounds := by
    have := h.bounds
    omega
  located := by
    intro j hj
    have hbounds := h.bounds
    rw [locate, if_neg (by omega), ← h.located j hj]
    congr 1
    omega

/-- What is left to transfer when the loop comes to the block at `start`. -/
def Left (size offset : UInt64) (start : Nat) (remaining : UInt64) : Prop :=
  remaining.toNat + max offset.toNat (min start (offset.toNat + size.toNat)) =
    offset.toNat + size.toNat

/-- The numbers of a piece, none of which wraps. -/
theorem piece_numbers {start blockSize : UInt64} (hend : offset.toNat + size.toNat < 2 ^ 64)
    (hblock : start.toNat + blockSize.toNat < 2 ^ 64)
    (hbehind : offset.toNat < start.toNat + blockSize.toNat)
    (hbefore : start.toNat < offset.toNat + size.toNat) :
    (max offset start).toNat = max offset.toNat start.toNat ∧
    (min (offset + size) (start + blockSize) - max offset start).toNat +
        (max offset start).toNat =
      min (offset.toNat + size.toNat) (start.toNat + blockSize.toNat) ∧
    (max offset start - start).toNat = (max offset start).toNat - start.toNat ∧
    (max offset start - offset).toNat = (max offset start).toNat - offset.toNat := by
  have hblockEnd : (start + blockSize).toNat = start.toNat + blockSize.toNat := by
    rw [UInt64.toNat_add]
    omega
  have hdataEnd : (offset + size).toNat = offset.toNat + size.toNat := by
    rw [UInt64.toNat_add]
    omega
  have hmax : (max offset start).toNat = max offset.toNat start.toNat := UInt64.toNat_max ..
  refine ⟨hmax, ?_, ?_, ?_⟩
  · rw [UInt64.toNat_sub_of_le, UInt64.toNat_min, hblockEnd, hdataEnd]
    · omega
    · rw [UInt64.le_iff_toNat_le, UInt64.toNat_min, hblockEnd, hdataEnd]
      omega
  · rw [UInt64.toNat_sub_of_le]
    rw [UInt64.le_iff_toNat_le]
    omega
  · rw [UInt64.toNat_sub_of_le]
    rw [UInt64.le_iff_toNat_le]
    omega

/-- Each piece is exact, and the pieces, as ranges of the buffer, are what is left of the
transfer, up to the last block. -/
theorem ioPlan_spec (hend : offset.toNat + size.toNat < 2 ^ 64) (bs : List BlobBlock) :
    ∀ {remaining start : UInt64}, start.toNat + byteLength bs < 2 ^ 64 →
      Left size offset start.toNat remaining →
      (∀ p ∈ ioPlan size offset bs remaining start, p.Exact size offset bs start.toNat) ∧
      ((ioPlan size offset bs remaining start).flatMap fun p =>
        List.range' p.bufferOffset.toNat p.size.toNat) =
          List.range' (size.toNat - remaining.toNat)
            (min (offset.toNat + size.toNat) (start.toNat + byteLength bs) -
              (offset.toNat + size.toNat - remaining.toNat)) := by
  induction bs with
  | nil =>
    intro remaining start _ hleft
    unfold Left at hleft
    have hnone : min (offset.toNat + size.toNat) (start.toNat + 0) -
        (offset.toNat + size.toNat - remaining.toNat) = 0 := by omega
    rw [byteLength_nil, hnone]
    exact ⟨by simp [ioPlan], rfl⟩
  | cons b bs ih =>
    intro remaining start hlen hleft
    rw [byteLength_cons] at hlen ⊢
    unfold Left at hleft
    unfold ioPlan
    by_cases hzero : remaining = 0
    · rw [if_pos hzero, hzero, UInt64.toNat_zero, Nat.sub_zero, Nat.sub_zero,
        Nat.sub_eq_zero_of_le (Nat.min_le_left _ _)]
      exact ⟨by simp, rfl⟩
    rw [if_neg hzero]
    have hblockEnd : (start + b.size).toNat = start.toNat + b.size.toNat := by
      rw [UInt64.toNat_add]
      omega
    have hdataEnd : (offset + size).toNat = offset.toNat + size.toNat := by
      rw [UInt64.toNat_add]
      omega
    dsimp only
    by_cases htouch : offset < start + b.size ∧ offset + size > start
    · rw [if_pos htouch]
      obtain ⟨h₁, h₂⟩ := htouch
      rw [UInt64.lt_iff_toNat_lt, hblockEnd] at h₁
      rw [gt_iff_lt, UInt64.lt_iff_toNat_lt, hdataEnd] at h₂
      obtain ⟨hsNat, hnNat, hinBlock, hinBuffer⟩ :=
        piece_numbers hend (by omega : start.toNat + b.size.toNat < 2 ^ 64) h₁ h₂
      generalize max offset start = s at *
      generalize min (offset + size) (start + b.size) - s = n at *
      -- What is left begins with the piece, which ends with its block or with the transfer.
      have hoffset : offset.toNat ≤ s.toNat := hsNat ▸ Nat.le_max_left _ _
      have hstart : start.toNat ≤ s.toNat := hsNat ▸ Nat.le_max_right _ _
      have hblock : n.toNat + s.toNat ≤ start.toNat + b.size.toNat := hnNat ▸ Nat.min_le_right _ _
      have hdata : n.toNat + s.toNat ≤ offset.toNat + size.toNat := hnNat ▸ Nat.min_le_left _ _
      have hrest : remaining.toNat + s.toNat = offset.toNat + size.toNat := by
        rw [hsNat, ← hleft, Nat.min_eq_left (Nat.le_of_lt h₂)]
      have hrem : (remaining - n).toNat = remaining.toNat - n.toNat := by
        rw [UInt64.toNat_sub_of_le]
        rw [UInt64.le_iff_toNat_le]
        omega
      have hleft' : Left size offset (start + b.size).toNat (remaining - n) := by
        unfold Left
        rw [hrem, hblockEnd]
        omega
      obtain ⟨hsound, htiles⟩ := ih (by rw [hblockEnd]; omega) hleft'
      rw [hblockEnd] at hsound htiles
      refine ⟨?_, ?_⟩
      · intro p hp
        rcases List.mem_cons.mp hp with hp | hp
        · subst hp
          refine ⟨by simp, ?_, ⟨?_, ?_⟩, ?_⟩
          · show (s - start).toNat + n.toNat ≤ b.size.toNat
            omega
          · show start.toNat ≤ offset.toNat + (s - offset).toNat
            omega
          · show (s - offset).toNat + n.toNat ≤ size.toNat
            omega
          · intro j hj
            dsimp only at hj ⊢
            rw [locate, if_pos (by omega), hinBlock, hinBuffer]
            congr 2
            omega
        · exact (hsound p hp).behind
      · -- The first piece starts where the transfer stands, the rest where the piece ends.
        have hfirst : (s - offset).toNat = size.toNat - remaining.toNat := by omega
        have hnext : size.toNat - (remaining - n).toNat =
            size.toNat - remaining.toNat + n.toNat := by omega
        have hstop : n.toNat + s.toNat ≤ min (offset.toNat + size.toNat)
            (start.toNat + (b.size.toNat + byteLength bs)) :=
          Nat.le_min.mpr ⟨hdata, by omega⟩
        rw [List.flatMap_cons, htiles, hnext, hfirst, List.range'_append_1, Nat.add_assoc start.toNat]
        generalize min (offset.toNat + size.toNat)
          (start.toNat + (b.size.toNat + byteLength bs)) = stop at hstop ⊢
        congr 1
        dsimp only
        omega
    · rw [if_neg htouch]
      rw [UInt64.lt_iff_toNat_lt, gt_iff_lt, UInt64.lt_iff_toNat_lt, hblockEnd, hdataEnd] at htouch
      have hleft' : Left size offset (start + b.size).toNat remaining := by
        unfold Left
        rw [hblockEnd]
        omega
      obtain ⟨hsound, htiles⟩ := ih (by rw [hblockEnd]; omega) hleft'
      rw [hblockEnd, Nat.add_assoc] at htiles
      rw [hblockEnd] at hsound
      exact ⟨fun p hp => (hsound p hp).behind, htiles⟩

end

/-! ### The writes of a put -/

/-- The bytes of the block on its device. -/
def BlobBlock.extent (b : BlobBlock) : Extent := (b.targetOffset.toNat, b.size.toNat)

/-- No two of the blocks share a position. -/
def Disjoint (bs : List BlobBlock) : Prop :=
  bs.Pairwise fun b c => b.bdevClient = c.bdevClient → Apart b.extent c.extent

theorem Owns.disjoint {d : Devices} {bs : List BlobBlock} (h : Owns d bs) : Disjoint bs := by
  refine h.apart.imp ?_
  intro b c hapart hpool
  have hb : b.extent.stop ≤ b.targetOffset.toNat + max b.size.toNat 4096 := by
    show b.targetOffset.toNat + b.size.toNat ≤ _
    omega
  have hc : c.extent.stop ≤ c.targetOffset.toNat + max c.size.toNat 4096 := by
    show c.targetOffset.toNat + c.size.toNat ≤ _
    omega
  have hleft : Apart b.extent _ := (hapart hpool).shrink (Nat.le_refl _) hb
  have hright : Apart c.extent b.extent := hleft.symm.shrink (Nat.le_refl _) hc
  exact hright.symm

/-- Two offsets of a blob are never at the same position. -/
theorem locate_inj {bs : List BlobBlock} (hdis : Disjoint bs) :
    ∀ {i j : Nat} {x : PoolId × Nat}, locate bs i = some x → locate bs j = some x → i = j := by
  induction bs with
  | nil =>
    intro i j x hi _
    simp [locate] at hi
  | cons b bs ih =>
    intro i j x hi hj
    obtain ⟨hhead, htail⟩ := List.pairwise_cons.mp hdis
    -- A position of the first block is no position of a later one.
    have hnot : ∀ {k l : Nat}, k < b.size.toNat →
        locate bs l ≠ some (b.bdevClient, b.targetOffset.toNat + k) := by
      intro k l hk hl
      obtain ⟨c, hc, hpool, hle, hlt⟩ := locate_mem hl
      exact (hhead c hc hpool.symm).not_mem
        (show b.targetOffset.toNat ≤ b.targetOffset.toNat + k ∧
          b.targetOffset.toNat + k < b.targetOffset.toNat + b.size.toNat by omega) ⟨hle, hlt⟩
    rw [locate] at hi hj
    by_cases hib : i < b.size.toNat
    · rw [if_pos hib] at hi
      by_cases hjb : j < b.size.toNat
      · rw [if_pos hjb] at hj
        rw [← hi, Option.some.injEq, Prod.mk.injEq] at hj
        omega
      · rw [if_neg hjb, ← hi] at hj
        exact absurd hj (hnot hib)
    · rw [if_neg hib] at hi
      by_cases hjb : j < b.size.toNat
      · rw [if_pos hjb] at hj
        rw [← hj] at hi
        exact absurd hi (hnot hjb)
      · rw [if_neg hjb] at hj
        have := ih htail hi hj
        omega

section

variable {t : PutBlobTask} {data : Nat → UInt8} {bs : List BlobBlock} {err : UInt32}
  {d d' : Devices}

variable {offset size : UInt64} {p : Piece} {start : Nat}

/-- Where a piece starts on its device. -/
theorem Piece.Exact.devBlock_offset (hexact : p.Exact size offset bs start)
    (hbounded : ∀ b ∈ bs, b.targetOffset.toNat + b.size.toNat < 2 ^ 64) :
    p.devBlock.offset.toNat = p.block.targetOffset.toNat + p.startInBlock.toNat := by
  have hlt := hbounded p.block hexact.mem
  have hin := hexact.inside
  show (p.block.targetOffset + p.startInBlock).toNat = _
  rw [UInt64.toNat_add]
  omega

/-- A piece is written where its bytes are located. -/
theorem covers_writeRequest (hexact : p.Exact t.size t.offset bs start)
    (hbounded : ∀ b ∈ bs, b.targetOffset.toNat + b.size.toNat < 2 ^ 64) {pool : PoolId} {a : Nat} :
    Covers (p.writeRequest data) pool a ↔
      ∃ j < p.size.toNat, pool = p.block.bdevClient ∧
        a = p.block.targetOffset.toNat + p.startInBlock.toNat + j := by
  have hoffset := hexact.devBlock_offset hbounded
  refine ⟨?_, ?_⟩
  · rintro ⟨block, f, length, hop, hpool, hle, hlt⟩
    simp only [Piece.writeRequest, Op.write.injEq] at hop hpool
    obtain ⟨hblock, _, hlength⟩ := hop
    subst hblock
    subst hlength
    exact ⟨a - p.devBlock.offset.toNat, by omega, hpool.symm, by omega⟩
  · rintro ⟨j, hj, hpool, ha⟩
    exact ⟨p.devBlock, _, p.size, rfl, hpool.symm, by omega, by omega⟩

/-- And what is written there are its bytes of the buffer. -/
theorem writtenAt_writeRequest (hexact : p.Exact t.size t.offset bs start)
    (hbounded : ∀ b ∈ bs, b.targetOffset.toNat + b.size.toNat < 2 ^ 64) (j : Nat) :
    writtenAt (p.writeRequest data)
      (p.block.targetOffset.toNat + p.startInBlock.toNat + j) =
        data (p.bufferOffset.toNat + j) := by
  have hoffset := hexact.devBlock_offset hbounded
  show data (p.bufferOffset.toNat + (_ - p.devBlock.offset.toNat)) = _
  congr 1
  omega

/-- What the bytes are to be told by: the blob is whole and its blocks are apart. -/
structure Laid (bs : List BlobBlock) : Prop where
  sized : byteLength bs < 2 ^ 64
  bounded : ∀ b ∈ bs, b.targetOffset.toNat + b.size.toNat < 2 ^ 64
  disjoint : Disjoint bs

theorem plan_spec (hend : offset.toNat + size.toNat < 2 ^ 64) (hlen : byteLength bs < 2 ^ 64) :
    (∀ p ∈ ioPlan size offset bs size 0, p.Exact size offset bs 0) ∧
    ((ioPlan size offset bs size 0).flatMap fun p =>
      List.range' p.bufferOffset.toNat p.size.toNat) =
        List.range (min (offset.toNat + size.toNat) (byteLength bs) - offset.toNat) := by
  have hlen₀ : (0 : UInt64).toNat + byteLength bs < 2 ^ 64 := by
    rw [UInt64.toNat_zero]
    omega
  have hleft₀ : Left size offset (0 : UInt64).toNat size := by
    unfold Left
    rw [UInt64.toNat_zero]
    omega
  obtain ⟨hsound, htiles⟩ := ioPlan_spec hend bs hlen₀ hleft₀
  rw [UInt64.toNat_zero] at hsound
  rw [UInt64.toNat_zero, Nat.sub_self, Nat.zero_add, Nat.add_sub_cancel,
    ← List.range_eq_range'] at htiles
  exact ⟨hsound, htiles⟩

/-- Each byte of a transfer that is in the blob is in a piece. -/
theorem plan_covers (hend : offset.toNat + size.toNat < 2 ^ 64)
    (hlen : byteLength bs < 2 ^ 64) {k : Nat} (hk : k < size.toNat)
    (hin : offset.toNat + k < byteLength bs) :
    ∃ p ∈ ioPlan size offset bs size 0, p.bufferOffset.toNat ≤ k ∧
      k < p.bufferOffset.toNat + p.size.toNat := by
  have hmem : k ∈ List.range (min (offset.toNat + size.toNat) (byteLength bs) - offset.toNat) :=
    List.mem_range.mpr (by omega)
  rw [← (plan_spec hend hlen).2] at hmem
  obtain ⟨p, hp, hmem⟩ := List.mem_flatMap.mp hmem
  exact ⟨p, hp, List.mem_range'_1.mp hmem⟩

/-- Writes stay inside the part of the blob they are for, complete or not. -/
theorem writes_outside (hend : t.offset.toNat + t.size.toNat < 2 ^ 64)
    (hsized : byteLength bs < 2 ^ 64)
    (hbounded : ∀ b ∈ bs, b.targetOffset.toNat + b.size.toNat < 2 ^ 64)
    (hwrites : Writes ServesAny (t.writes data bs) err d d') {pool : PoolId} {a : Nat}
    (hout : ∀ i, t.offset.toNat ≤ i → i < t.offset.toNat + t.size.toNat →
      locate bs i ≠ some (pool, a)) : d'.byteAt pool a = d.byteAt pool a := by
  obtain ⟨all, hserve, _⟩ := hwrites
  refine byteAt_batch_of_not_covers hserve ?_
  intro q hq hcov
  obtain ⟨p, hp, hqp⟩ := List.mem_map.mp hq
  have hexact := (plan_spec hend hsized).1 p hp
  rw [← hqp, covers_writeRequest hexact hbounded] at hcov
  obtain ⟨j, hj, hpool, ha⟩ := hcov
  have hbounds := hexact.bounds
  refine hout (t.offset.toNat + p.bufferOffset.toNat + j) (by omega) (by omega) ?_
  rw [hpool, ha]
  exact hexact.located j hj

/-- When all writes are complete, the data is where the blob has it. -/
theorem writes_inside (hend : t.offset.toNat + t.size.toNat < 2 ^ 64) (hlaid : Laid bs)
    (hwrites : Writes ServesAny (t.writes data bs) 0 d d') {i : Nat}
    (hoff : t.offset.toNat ≤ i) (hi : i < t.offset.toNat + t.size.toNat) {x : PoolId × Nat}
    (hloc : locate bs i = some x) : d'.byteAt x.1 x.2 = data (i - t.offset.toNat) := by
  obtain ⟨all, hserve, herr⟩ := hwrites
  have hsound := (plan_spec hend hlaid.sized).1
  have hlt : i < byteLength bs := by
    rw [← locate_isSome, hloc]
    rfl
  refine byteAt_batch_of_covers hserve (full_of_transferError herr.symm) ?_ (Or.inr ?_)
  · intro q hq hcov
    obtain ⟨p, hp, hqp⟩ := List.mem_map.mp hq
    have hexact := hsound p hp
    rw [← hqp, covers_writeRequest hexact hlaid.bounded] at hcov
    obtain ⟨j, hj, hpool, ha⟩ := hcov
    have hsame : i = t.offset.toNat + p.bufferOffset.toNat + j := by
      refine locate_inj hlaid.disjoint hloc ?_
      have hlocated := hexact.located j hj
      rw [Nat.sub_zero, ← hpool, ← ha] at hlocated
      exact hlocated
    rw [← hqp, ha, writtenAt_writeRequest hexact hlaid.bounded]
    congr 1
    omega
  · obtain ⟨p, hp, hle, hlt'⟩ := plan_covers hend hlaid.sized
      (by omega : i - t.offset.toNat < t.size.toNat) (by omega)
    have hexact := hsound p hp
    refine ⟨p.writeRequest data, List.mem_map_of_mem hp, ?_⟩
    rw [covers_writeRequest hexact hlaid.bounded]
    have hlocated := hexact.located (i - (t.offset.toNat + p.bufferOffset.toNat)) (by omega)
    have hidx : t.offset.toNat + p.bufferOffset.toNat +
        (i - (t.offset.toNat + p.bufferOffset.toNat)) - 0 = i := by omega
    rw [hidx, hloc, Option.some.injEq] at hlocated
    refine ⟨i - (t.offset.toNat + p.bufferOffset.toNat), by omega, ?_, ?_⟩
    · rw [hlocated]
    · rw [hlocated]

end

end Cte
end IowarpCore
