/-
Reading and writing through a block list.

The pieces of a transfer laid end to end are the range of the transfer: the loop moves
every byte of it once and in order (`plan_tiles`), and each piece is at the place
`locate` gives for its bytes.  So the requests of `ModifyExistingData` and of `ReadData`
list the places of the range one by one (`transfer_agrees`).

That is for ranges inside the blob.  `ReadData` has a counter of the bytes no block
covered and does not look at it in the end, so for any other range `GetBlob` may report
success without having read them (`noShortRead_iff`).
-/
import IowarpCore.Proofs.PutLaw

namespace IowarpCore
namespace Cte

open Bdev (Request Devices Allocator)
open Co

/-! ### What a request moves -/

/-- The bytes a transfer moves: the pool and the position of each. -/
def positions (q : Request) : List (PoolId × Nat) :=
  match q.op with
  | .write block _ length | .read block length =>
    (List.range (min length block.size).toNat).map fun j => (q.pool, block.offset.toNat + j)
  | _ => []

/-- The bytes a write brings. -/
def payload (q : Request) : List UInt8 :=
  match q.op with
  | .write block data length => (List.range (min length block.size).toNat).map data
  | _ => []

/-- The read of what a write writes. -/
def mirrored (q : Request) : Request :=
  match q.op with
  | .write block _ length => ⟨q.pool, q.query, .read block length⟩
  | _ => q

section

variable {size offset : UInt64} {bs : List BlobBlock}

/-- The pieces of a whole transfer cover its buffer, each byte once. -/
theorem plan_tiles (hin : offset.toNat + size.toNat ≤ byteLength bs)
    (hsized : byteLength bs < 2 ^ 64) :
    ((ioPlan size offset bs size 0).flatMap fun p =>
      List.range' p.bufferOffset.toNat p.size.toNat) = List.range size.toNat := by
  rw [(plan_spec (by omega) hsized).2, Nat.min_eq_left hin, Nat.add_sub_cancel_left]

/-- The write of a piece, byte by byte. -/
theorem positions_writeRequest {p : Piece} {start : Nat} (data : Nat → UInt8)
    (hexact : p.Exact size offset bs start)
    (hbounded : ∀ b ∈ bs, b.targetOffset.toNat + b.size.toNat < 2 ^ 64) :
    (positions (p.writeRequest data)).map some =
      (List.range' p.bufferOffset.toNat p.size.toNat).map fun k =>
        locate bs (offset.toNat + k - start) := by
  have hoffset := hexact.devBlock_offset hbounded
  show ((List.range (min p.size p.size).toNat).map fun j =>
    (p.block.bdevClient, p.devBlock.offset.toNat + j)).map some = _
  rw [List.range'_eq_map_range, List.map_map, List.map_map, UInt64.toNat_min, Nat.min_self]
  refine List.map_congr_left ?_
  intro j hj
  have hlocated := hexact.located j (List.mem_range.mp hj)
  rw [Nat.add_assoc] at hlocated
  show some (p.block.bdevClient, p.devBlock.offset.toNat + j) =
    locate bs (offset.toNat + (p.bufferOffset.toNat + j) - start)
  rw [hlocated, hoffset]

theorem payload_writeRequest (p : Piece) (data : Nat → UInt8) :
    payload (p.writeRequest data) =
      (List.range' p.bufferOffset.toNat p.size.toNat).map data := by
  show (List.range (min p.size p.size).toNat).map (fun i => data (p.bufferOffset.toNat + i)) = _
  rw [List.range'_eq_map_range, List.map_map, UInt64.toNat_min, Nat.min_self]
  rfl

/-! ### Writing and reading the same range -/

/-- What `ModifyExistingData` and `ReadData` do on a range of a block list. -/
structure TransferAgrees (bs : List BlobBlock) (size offset : UInt64) : Prop where
  /-- The writes go to the places of the range, one byte each and in order, the reads are
  the same transfers the other way, and neither sends anything else. -/
  requests : ∀ data buffer, ∃ writes,
    SendsBatch writes (modifyExistingData bs data size offset) ∧
    SendsBatch (writes.map mirrored) (readData bs buffer size offset) ∧
    (writes.flatMap positions).map some =
      (List.range size.toNat).map (fun k => locate bs (offset.toNat + k)) ∧
    writes.flatMap payload = (List.range size.toNat).map data
  /-- No other byte of a device changes, whatever becomes of the writes. -/
  elsewhere : ∀ data {w rc w'}, Runs ServesAny (modifyExistingData bs data size offset) w rc w' →
    ∀ {pool a}, (∀ k < size.toNat, locate bs (offset.toNat + k) ≠ some (pool, a)) →
      w'.d.byteAt pool a = w.d.byteAt pool a
  /-- After writes that succeeded, a read of any range of the blob that succeeds brings the
  written data, and what was there before outside of it. -/
  readBack : Disjoint bs → ∀ data {w w'},
    Runs ServesAny (modifyExistingData bs data size offset) w 0 w' →
    ∀ {size' offset' : UInt64} {buffer buffer' w''},
      offset'.toNat + size'.toNat ≤ byteLength bs →
      Runs ServesAny (readData bs buffer size' offset') w' (0, buffer') w'' →
      ∀ k < size'.toNat, some (buffer' k) =
        if offset.toNat ≤ offset'.toNat + k ∧ offset'.toNat + k < offset.toNat + size.toNat then
          some (data (offset'.toNat + k - offset.toNat))
        else readAt w.d.byteAt bs (offset'.toNat + k)

/-- A put of the data to the range, as far as its writes go. -/
def rangePut (data : Nat → UInt8) (size offset : UInt64) : PutBlobTask :=
  ⟨UniqueId.null, [], offset, size, some data, F32.zero, default⟩

theorem writes_elsewhere {data : Nat → UInt8} {rc : UInt32} {w w' : World Container Devices}
    (hsized : byteLength bs < 2 ^ 64)
    (hbounded : ∀ b ∈ bs, b.targetOffset.toNat + b.size.toNat < 2 ^ 64)
    (hend : offset.toNat + size.toNat < 2 ^ 64)
    (h : Runs ServesAny (modifyExistingData bs data size offset) w rc w') {pool : PoolId} {a : Nat}
    (hout : ∀ k < size.toNat, locate bs (offset.toNat + k) ≠ some (pool, a)) :
    w'.d.byteAt pool a = w.d.byteAt pool a := by
  obtain ⟨hwrites, _⟩ := runs_modifyExistingData (t := rangePut data size offset) h
  refine writes_outside hend hsized hbounded hwrites ?_
  intro i hle hlt
  have hidx : offset.toNat + (i - offset.toNat) = i := Nat.add_sub_cancel' hle
  rw [← hidx]
  exact hout _ (by have : i < offset.toNat + size.toNat := hlt; omega)

/-- The bytes of the blob after writes that succeeded. -/
theorem readAt_written {data : Nat → UInt8} {w w' : World Container Devices} (hlaid : Laid bs)
    (hend : offset.toNat + size.toNat < 2 ^ 64)
    (h : Runs ServesAny (modifyExistingData bs data size offset) w 0 w') {i : Nat}
    (hi : i < byteLength bs) :
    readAt w'.d.byteAt bs i =
      if offset.toNat ≤ i ∧ i < offset.toNat + size.toNat then some (data (i - offset.toNat))
      else readAt w.d.byteAt bs i := by
  obtain ⟨x, hloc⟩ := Option.isSome_iff_exists.mp (locate_isSome.mpr hi)
  by_cases hrange : offset.toNat ≤ i ∧ i < offset.toNat + size.toNat
  · obtain ⟨hwrites, _⟩ := runs_modifyExistingData (t := rangePut data size offset) h
    rw [if_pos hrange, readAt, hloc, Option.map_some]
    congr 1
    exact writes_inside (t := rangePut data size offset) hend hlaid hwrites hrange.1 hrange.2 hloc
  · rw [if_neg hrange, readAt, readAt, hloc, Option.map_some, Option.map_some]
    congr 1
    refine writes_elsewhere hlaid.sized hlaid.bounded hend h ?_
    intro k hk hk'
    have hsame := locate_inj hlaid.disjoint hloc hk'
    omega

/-- **The two loops agree.**

On a range inside the blob, `ModifyExistingData` writes each byte of the range once, at
the place where the blocks put end to end have it, and nothing else; `ReadData` sends the
mirrored reads.  When the blocks are apart, what was written is read back and all other
offsets read as before.
-/
theorem transfer_agrees (hsized : byteLength bs < 2 ^ 64)
    (hbounded : ∀ b ∈ bs, b.targetOffset.toNat + b.size.toNat < 2 ^ 64)
    (hin : offset.toNat + size.toNat ≤ byteLength bs) : TransferAgrees bs size offset := by
  have hend : offset.toNat + size.toNat < 2 ^ 64 := by omega
  obtain ⟨hsound, _⟩ := plan_spec hend hsized
  have htiles := plan_tiles hin hsized
  refine ⟨?_, ?_, ?_⟩
  · intro data buffer
    refine ⟨(ioPlan size offset bs size 0).map (Piece.writeRequest data),
      ⟨rfl, fun _ => trivial⟩, ⟨?_, fun _ => trivial⟩, ?_, ?_⟩
    · rw [List.map_map]
      rfl
    · rw [List.flatMap_map, List.map_flatMap, ← htiles, List.map_flatMap]
      refine List.flatMap_congr ?_
      intro p hp
      simpa using positions_writeRequest data (hsound p hp) hbounded
    · rw [List.flatMap_map, ← htiles, List.map_flatMap]
      exact List.flatMap_congr fun p _ => payload_writeRequest p data
  · intro data w rc w' h pool a hout
    exact writes_elsewhere hsized hbounded hend h hout
  · intro hdisjoint data w w' h size' offset' buffer buffer' w'' hin' hread k hk
    have hbyte := readData_reads (fun _ _ _ _ hs => hs) (by omega) hsized hbounded hread hk
      (by omega)
    rw [← hbyte]
    exact readAt_written ⟨hsized, hbounded, hdisjoint⟩ hend h (by omega)

/-- Three blocks, one of them empty and two on one device. -/
def threeBlocks : List BlobBlock :=
  [⟨ramPool, default, 4096, 4⟩, ⟨⟨513, 1⟩, default, 0, 0⟩, ⟨ramPool, default, 0, 6⟩]

theorem transfer_agrees_threeBlocks : TransferAgrees threeBlocks 5 3 :=
  transfer_agrees (by decide) (by decide) (by decide)

end

/-! ### A get -/

/-- Whenever the get of the blob reports success, on whatever devices, all the bytes it was
asked for are in the buffer, each read from a block of the blob. -/
def NoShortRead (c : Container) (t : GetBlobTask) : Prop :=
  ∀ d rc buffer w', Runs ServesAny (getBlob t) ⟨c, d⟩ (rc, buffer) w' → rc = 0 →
    ∀ k < t.size.toNat,
      contents ⟨c, d⟩ (compositeKey t.tagId t.blobName) (t.offset.toNat + k) = some (buffer k)

/-- File devices for all the pools the blocks lie on. -/
def fileDevices (bs : List BlobBlock) : Devices where
  devs := bs.foldr (fun b devs => devs.insertOrAssign b.bdevClient
    ⟨.file, Allocator.init 1 0 4096, 0, fun _ => 0⟩) AMap.empty
  granted := fun _ _ => true

theorem fileDevices_find {b : BlobBlock} {bs : List BlobBlock} (hb : b ∈ bs) :
    ∃ dev, (fileDevices bs).devs.find? b.bdevClient = some dev ∧ dev.bdevType = .file := by
  induction bs with
  | nil => simp at hb
  | cons b' bs ih =>
    show ∃ dev, ((fileDevices bs).devs.insertOrAssign b'.bdevClient _).find? _ = some dev ∧ _
    rw [AMap.find?_insertOrAssign]
    by_cases hsame : b.bdevClient = b'.bdevClient
    · rw [if_pos hsame]
      exact ⟨_, rfl, rfl⟩
    · rw [if_neg hsame]
      rcases List.mem_cons.mp hb with hb | hb
      · exact absurd (congrArg BlobBlock.bdevClient hb) hsame
      · exact ih hb

/-- The pieces lie in blocks of the list. -/
theorem mem_of_ioPlan {size offset : UInt64} (bs : List BlobBlock) :
    ∀ {remaining start : UInt64} {p : Piece}, p ∈ ioPlan size offset bs remaining start →
      p.block ∈ bs := by
  induction bs with
  | nil =>
    intro remaining start p hp
    simp [ioPlan] at hp
  | cons b bs ih =>
    intro remaining start p hp
    unfold ioPlan at hp
    by_cases hzero : remaining = 0
    · simp [hzero] at hp
    rw [if_neg hzero] at hp
    dsimp only at hp
    by_cases htouch : offset < start + b.size ∧ offset + size > start
    · rw [if_pos htouch] at hp
      rcases List.mem_cons.mp hp with hp | hp
      · rw [hp]
        exact List.mem_cons_self
      · exact List.mem_cons_of_mem _ (ih hp)
    · rw [if_neg htouch] at hp
      exact List.mem_cons_of_mem _ (ih hp)

/-- A file device can answer any read of one piece in full. -/
theorem serves_readRequest {d : Devices} {p : Piece}
    (h : ∃ dev, d.devs.find? p.block.bdevClient = some dev ∧ dev.bdevType = .file) :
    ∃ r, ServesAny p.readRequest d r d ∧ fullTransfer p.readRequest r = true := by
  obtain ⟨dev, hfind, hfile⟩ := h
  have hserves : ServesAny p.readRequest d (Devices.serve default p.readRequest d).1
      (Devices.serve default p.readRequest d).2 := ⟨default, rfl⟩
  rw [serve_read hserves rfl] at hserves
  refine ⟨_, hserves, ?_⟩
  have hmin : min (0xffffffffffffffff : UInt64) (min p.size p.size) = p.size := by
    have := p.size.toNat_lt
    rw [← UInt64.toNat_inj, UInt64.toNat_min, UInt64.toNat_min]
    show min (2 ^ 64 - 1) _ = _
    omega
  have hreply : (Devices.serve default p.readRequest d).1 =
      (dev.handle default p.readRequest.op).1 := by
    have hpool : d.devs.find? p.readRequest.pool = some dev := hfind
    unfold Devices.serve
    rw [hpool]
  have hbytes : (Devices.serve default p.readRequest d).1.bytes = p.size := by
    rw [hreply]
    show (Bdev.transfer dev p.devBlock p.size (.done 0xffffffffffffffff)).2.1 = p.size
    rw [Bdev.transfer, hfile]
    exact hmin
  simpa [fullTransfer, Piece.readRequest] using hbytes

theorem serveAll_reads {d : Devices} (pieces : List Piece)
    (h : ∀ p ∈ pieces, ∃ dev, d.devs.find? p.block.bdevClient = some dev ∧ dev.bdevType = .file) :
    ∃ all, ServeAll ServesAny (pieces.map Piece.readRequest) d all d ∧
      ∀ x ∈ (pieces.map Piece.readRequest).zip all, fullTransfer x.1 x.2 = true := by
  induction pieces with
  | nil => exact ⟨[], .nil d, by simp⟩
  | cons p pieces ih =>
    obtain ⟨r, hserve, hfull⟩ := serves_readRequest (h p List.mem_cons_self)
    obtain ⟨all, hall, hfulls⟩ := ih fun p' hp' => h p' (List.mem_cons_of_mem _ hp')
    refine ⟨r :: all, .cons hserve hall, ?_⟩
    intro x hx
    rw [List.map_cons, List.zip_cons_cons, List.mem_cons] at hx
    rcases hx with hx | hx
    · rw [hx]
      exact hfull
    · exact hfulls x hx

/-- Over such devices `ReadData` reports success, whatever the range. -/
theorem readData_succeeds (c : Container) (bs : List BlobBlock) (buffer : Nat → UInt8)
    (size offset : UInt64) :
    ∃ buffer', Runs ServesAny (readData bs buffer size offset) ⟨c, fileDevices bs⟩ (0, buffer')
      ⟨c, fileDevices bs⟩ := by
  obtain ⟨all, hserve, hfull⟩ := serveAll_reads (ioPlan size offset bs size 0)
    fun p hp => fileDevices_find (mem_of_ioPlan bs hp)
  have herr : transferError ((ioPlan size offset bs size 0).map Piece.readRequest) all = 0 := by
    rw [transferError, if_pos]
    exact List.all_eq_true.mpr hfull
  refine ⟨fillBuffer buffer ((ioPlan size offset bs size 0).zip all), ?_⟩
  simp only [readData, bind_eq, pure_eq, runs_bind, runs_callAll, runs_ret]
  refine ⟨all, _, ⟨all, ?_, hserve, rfl⟩, ?_, rfl⟩
  · exact (awaited_of_all hserve.length hfull).symm
  · rw [herr]

/-- **When no read is short unnoticed.**

A get either names no blob it could read (no bytes asked for, no name, no such blob), and is
refused, or its range lies inside the blob.  Any other get can report success, and does on
devices that answer every read: the bytes that no block covers are not asked for and are not
missed.
-/
theorem noShortRead_iff (c : Container) (t : GetBlobTask)
    (hsized : ∀ node, c.blobs.find? (compositeKey t.tagId t.blobName) = some node →
      byteLength node.info.blocks < 2 ^ 64 ∧
        ∀ b ∈ node.info.blocks, b.targetOffset.toNat + b.size.toNat < 2 ^ 64) :
    NoShortRead c t ↔
      t.size = 0 ∨ t.blobName = [] ∨
        ∀ node, c.blobs.find? (compositeKey t.tagId t.blobName) = some node →
          t.offset.toNat + t.size.toNat ≤ node.info.getTotalSize.toNat := by
  by_cases hrefused : t.size = 0 ∨ t.blobName = [] ∨
      c.blobs.find? (compositeKey t.tagId t.blobName) = none
  · refine ⟨fun _ => ?_, ?_⟩
    · rcases hrefused with h | h | h
      · exact Or.inl h
      · exact Or.inr (Or.inl h)
      · refine Or.inr (Or.inr fun node hnode => ?_)
        rw [h] at hnode
        simp at hnode
    · intro _ d rc buffer w' hrun hrc
      rw [show rc = 1 from (getBlob_refused hrefused hrun).1] at hrc
      exact absurd hrc (by decide)
  · rw [not_or, not_or] at hrefused
    obtain ⟨hsize, hname, hsome⟩ := hrefused
    obtain ⟨node, hnode⟩ := Option.ne_none_iff_exists'.mp hsome
    obtain ⟨hlen, hbounded⟩ := hsized node hnode
    have hname' : t.blobName.isEmpty = false := by simpa using hname
    have htotal : node.info.getTotalSize.toNat = byteLength node.info.blocks :=
      getTotalSize_toNat hlen
    refine ⟨?_, ?_⟩
    · intro hshort
      refine Or.inr (Or.inr fun node' hnode' => ?_)
      rw [hnode, Option.some.injEq] at hnode'
      subst hnode'
      rw [htotal]
      by_contra hout
      obtain ⟨buffer', hread⟩ :=
        readData_succeeds c node.info.blocks t.blobData t.size t.offset
      have hpos : t.size.toNat ≠ 0 := fun h => hsize (UInt64.toNat_inj.mp h)
      have hlast := hshort _ 0 buffer' _
        ((runs_getBlob_found hsize hname' hnode).mpr hread) rfl (t.size.toNat - 1) (by omega)
      have hnone : locate node.info.blocks (t.offset.toNat + (t.size.toNat - 1)) = none :=
        locate_eq_none.mpr (by omega)
      rw [contents, Container.blocks?, hnode] at hlast
      simp [readAt, hnone] at hlast
    · rintro (h | h | hin) d rc buffer w' hrun hrc k hk
      · exact absurd h hsize
      · exact absurd h hname
      · have hrange := hin node hnode
        rw [htotal] at hrange
        rw [runs_getBlob_found hsize hname' hnode, hrc] at hrun
        have hbyte := readData_reads (fun _ _ _ _ hs => hs) (by omega) hlen hbounded hrun hk
          (by omega)
        rw [contents, Container.blocks?, hnode]
        exact hbyte

/-- A get of so many bytes of the blob of ten. -/
def smallGet (offset size : UInt64) : GetBlobTask := ⟨⟨1, 1⟩, [1], offset, size, fun _ => 7⟩

theorem find_tenBytes :
    (runAll smallConfig tenBytes smallEngine).c.blobs.find? (compositeKey ⟨1, 1⟩ [1]) =
      some ⟨0, ⟨[1], [⟨ramPool, default, 0, 10⟩], F32.one, 0, 2, 0⟩⟩ := by
  decide +kernel

theorem noShortRead_inside : NoShortRead (runAll smallConfig tenBytes smallEngine).c (smallGet 4 6) := by
  refine (noShortRead_iff _ _ ?_).mpr (Or.inr (Or.inr ?_))
  · intro node hnode
    rw [← Option.some.inj (find_tenBytes.symm.trans hnode)]
    exact ⟨by decide, by decide⟩
  · intro node hnode
    rw [← Option.some.inj (find_tenBytes.symm.trans hnode)]
    decide

/-- Ten bytes from offset 5 of a blob of ten: five of them are read, and the get reports
success. -/
theorem short_read_unnoticed :
    Fresh smallEngine ∧
    Along (Ran ServesAny smallConfig) tenBytes smallEngine
      (runAll smallConfig tenBytes smallEngine) ∧
    (exec Devices.serve (getBlob (smallGet 5 10)) [] []
      (runAll smallConfig tenBytes smallEngine)).1.1 = 0 ∧
    ¬NoShortRead (runAll smallConfig tenBytes smallEngine).c (smallGet 5 10) := by
  refine ⟨fresh_smallEngine, along_runAll servesAny_of_check tenBytes (by decide +kernel),
    by decide +kernel, ?_⟩
  intro hshort
  have hrun := runs_exec servesAny_of_check (getBlob (smallGet 5 10)) [] []
    (runAll smallConfig tenBytes smallEngine) (by decide +kernel)
  have hlast := hshort _ _ _ _ hrun (by decide +kernel) 9 (by decide)
  have hnone : contents (runAll smallConfig tenBytes smallEngine) (compositeKey ⟨1, 1⟩ [1]) 14 =
      none := by decide +kernel
  exact absurd (hnone.symm.trans hlast) (by simp)

end Cte
end IowarpCore
