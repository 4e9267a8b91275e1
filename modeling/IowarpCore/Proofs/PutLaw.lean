/-
The frame law of a put.

A put that succeeds should leave the blob as it was, with its range replaced by the data
and the blob grown to hold it (`PutLaw`).  Behind the stage that prepares the blob this
is what happens (`stored_law`).  The preparation is where it goes wrong: a put at offset
0 frees all blocks of the blob first, also when it brings fewer bytes than it freed, so
everything behind its range is gone.  `put_law_iff` says that this, and an end that does
not fit 64 bits, are the only ways to break the law.  What was put is read back,
also after tasks about other blobs (`getBlob_after_putBlob`).
-/
import IowarpCore.Proofs.Space

namespace IowarpCore
namespace Cte

open Bdev (Request Reply Devices)
open Co

variable {w w' : World Container Devices}

/-- The blob after the put: the data in its range, the old bytes outside it, and as long as
either needs. -/
structure PutLaw (w w' : World Container Devices) (t : PutBlobTask) (data : Nat → UInt8) :
    Prop where
  size : w'.c.blobSize t.key = max (w.c.blobSize t.key) (t.offset.toNat + t.size.toNat)
  inside : ∀ i, t.offset.toNat ≤ i → i < t.offset.toNat + t.size.toNat →
    contents w' t.key i = some (data (i - t.offset.toNat))
  outside : ∀ i, i < w.c.blobSize t.key →
    i < t.offset.toNat ∨ t.offset.toNat + t.size.toNat ≤ i →
    contents w' t.key i = contents w t.key i

/-! ### The stages behind the preparation -/

variable {info : BlobInfo} {ptr : BlobPtr} {data : Nat → UInt8} {old : UInt64} {s : F32}
  {t : PutBlobTask}

/-- The blocks after a successful extension: the old ones in front, and enough of them. -/
theorem Extended.blocks {S : Request → Devices → Reply → Devices → Prop}
    {info₁ : BlobInfo} {required : UInt64} (hsized : byteLength info.blocks < 2 ^ 64)
    (hptr : w.c.PointsTo ptr info) (hext : Extended S w ptr info required 0 w')
    (hptr₁ : w'.c.PointsTo ptr info₁) :
    byteLength info₁.blocks = max (byteLength info.blocks) required.toNat ∧
      ∀ i, i < byteLength info.blocks → locate info₁.blocks i = locate info.blocks i := by
  obtain ⟨hfits, rfl⟩ | ⟨hnot, new, hsize, rfl⟩ := hext.info_cases hptr hptr₁
  · rw [UInt64.le_iff_toNat_le, getTotalSize_toNat hsized] at hfits
    exact ⟨by omega, fun _ _ => rfl⟩
  · have hlen := extended_length hsized hnot hsize
    rw [UInt64.le_iff_toNat_le, getTotalSize_toNat hsized] at hnot
    refine ⟨by dsimp only; omega, fun i hi => ?_⟩
    dsimp only
    rw [locate_append, if_pos hi]

/-- Only the stage that finished returns 0. -/
theorem Stored.done_of_zero {S : Request → Devices → Reply → Devices → Prop}
    (h : Stored S t data s ptr info old w 0 w') :
    ∃ info₁ w₁ worker, Extended S w ptr info (t.offset + t.size) 0 w₁ ∧
      w₁.c.PointsTo ptr info₁ ∧ Writes S (t.writes data info₁.blocks) 0 w₁.d w'.d ∧
      w'.c = ((w₁.c.logExtend worker t info₁.blocks).setBlob ptr
        (finishedBlob t s info₁)).changeTagTotal t.tagId info₁.getTotalSize old := by
  generalize hrc : (0 : UInt32) = rc at h
  cases h with
  | noSpace herr hext =>
    cases hext with
    | fits _ => exact absurd rfl herr
    | failed _ hcode _ =>
      rcases hcode with hcode | hcode | hcode
      · rw [hcode] at hrc
        exact absurd hrc (by decide)
      · rw [hcode] at hrc
        exact absurd hrc (by decide)
      · rw [hcode] at hrc
        exact absurd hrc (by decide)
    | grown _ _ => exact absurd rfl herr
  | @short info₁ w₁ worker err d _ _ herr hwrites =>
    obtain ⟨_, _, hcode⟩ := hwrites
    unfold transferError at hcode
    split at hcode
    · exact absurd hcode herr
    · rw [hcode] at hrc
      exact absurd hrc (by decide)
  | done hext hptr hwrites => exact ⟨_, _, _, hext, hptr, hwrites, rfl⟩

/-- What the last stages make of the blob they are given. -/
theorem stored_law (h : SpaceInv w) (hptr : w.c.PointsTo ptr info)
    (hend : t.offset.toNat + t.size.toNat < 2 ^ 64)
    (hstored : Stored ServesWell t data s ptr info old w 0 w') :
    ∃ blocks, w'.c.blocks? ptr.key = some blocks ∧
      byteLength blocks = max (byteLength info.blocks) (t.offset.toNat + t.size.toNat) ∧
      (∀ i, t.offset.toNat ≤ i → i < t.offset.toNat + t.size.toNat →
        readAt w'.d.byteAt blocks i = some (data (i - t.offset.toNat))) ∧
      ∀ i, i < byteLength info.blocks →
        i < t.offset.toNat ∨ t.offset.toNat + t.size.toNat ≤ i →
        readAt w'.d.byteAt blocks i = readAt w.d.byteAt info.blocks i := by
  obtain ⟨info₁, w₁, worker, hext, hptr₁, hwrites, hc⟩ := hstored.done_of_zero
  have h₁ := hext.spaceInv h hptr
  have hlaid : Laid info₁.blocks := h₁.laid hptr₁
  have hrequired : (t.offset + t.size).toNat = t.offset.toNat + t.size.toNat := by
    rw [UInt64.toNat_add]
    omega
  obtain ⟨hlen, hfront⟩ := hext.blocks (h.sized _ _ hptr) hptr hptr₁
  rw [hrequired] at hlen
  have hany : Writes ServesAny (t.writes data info₁.blocks) 0 w₁.d w'.d := by
    obtain ⟨all, hserve, herr⟩ := hwrites
    exact ⟨all, hserve.mono fun _ _ _ _ hs => ServesWell.any hs, herr⟩
  refine ⟨info₁.blocks, ?_, hlen, ?_, ?_⟩
  · rw [hc, Container.blocks?, changeTagTotal_blobs]
    show (((w₁.c.logExtend worker t info₁.blocks).blobs.insertOrAssign _ _).find? _).map _ = _
    rw [AMap.find?_insertOrAssign_self]
    rfl
  · intro i hle hlt
    have hsome : (locate info₁.blocks i).isSome = true := by
      rw [locate_isSome]
      omega
    obtain ⟨x, hloc⟩ := Option.isSome_iff_exists.mp hsome
    rw [readAt, hloc, Option.map_some, writes_inside hend hlaid hany hle hlt hloc]
  · intro i hi hout
    have hsome : (locate info.blocks i).isSome = true := by
      rw [locate_isSome]
      exact hi
    obtain ⟨x, hloc⟩ := Option.isSome_iff_exists.mp hsome
    have hloc₁ : locate info₁.blocks i = some x := (hfront i hi).trans hloc
    rw [readAt, readAt, hloc₁, hloc, Option.map_some, Option.map_some]
    have hkept : w'.d.byteAt x.1 x.2 = w₁.d.byteAt x.1 x.2 := by
      refine writes_outside hend hlaid.sized hlaid.bounded hany ?_
      intro j hle hlt hj
      have hij := locate_inj hlaid.disjoint hloc₁ hj
      omega
    rw [hkept, hext.sameBytes]

/-! ### The law -/

/-- A put that is not rejected clears the blob exactly when it starts at 0 and the blob has
bytes. -/
theorem clears_iff {node : BlobNode} (h : SpaceInv w)
    (hok : ¬t.Rejected w.c) (hfind : w.c.blobs.find? t.key = some node) :
    Clears (t.scoreFor (w.c.blobs.find? t.key)) t.offset node.info ↔
      t.offset = 0 ∧ byteLength node.info.blocks ≠ 0 := by
  have hneg := scoreFor_nonneg h t
  have hbig : F32.one.lt (t.scoreFor (w.c.blobs.find? t.key)) = false := by
    by_cases hc : F32.one.lt (t.scoreFor (w.c.blobs.find? t.key)) = true
    · exact absurd (Or.inr (Or.inr (Or.inr hc))) hok
    · simpa using hc
  have htotal : node.info.getTotalSize ≠ 0 ↔ byteLength node.info.blocks ≠ 0 := by
    rw [ne_eq, ne_eq, ← UInt64.toNat_inj, getTotalSize_toNat (h.sized _ _ hfind)]
    rfl
  unfold Clears
  rw [hneg, hbig, htotal]
  simp

/-- The law follows for a blob that the preparation left alone or that had nothing to lose. -/
theorem putLaw_of_prepared {w₁ : World Container Devices} (h₁ : SpaceInv w₁)
    (hprep : Prepared ServesWell t s w ptr info old w₁)
    (hend : t.offset.toNat + t.size.toNat < 2 ^ 64)
    (hclear : ∀ node, w.c.blobs.find? t.key = some node →
      Clears s t.offset node.info → byteLength node.info.blocks ≤ t.size.toNat)
    (hstored : Stored ServesWell t data s ptr info old w₁ 0 w') : PutLaw w w' t data := by
  obtain ⟨blocks, hblocks, hlen, hinside, houtside⟩ := stored_law h₁ hprep.pointsTo hend hstored
  rw [hprep.key] at hblocks
  have hsize := blobSize_of_blocks hblocks
  cases hprep with
  | @kept node hfind _ =>
    have hold : w.c.blobSize t.key = byteLength node.info.blocks := blobSize_of_find hfind
    refine ⟨by rw [hsize, hlen, hold], ?_, ?_⟩
    · intro i hle hlt
      rw [contents_of_blocks hblocks, hinside i hle hlt]
    · intro i hi hout
      rw [hold] at hi
      have hblocks₀ : w.c.blocks? t.key = some node.info.blocks := by
        rw [Container.blocks?, hfind]
        rfl
      rw [contents_of_blocks hblocks, contents_of_blocks hblocks₀, houtside i hi hout]
  | @cleared node targets worker d hfind hclears _ _ =>
    have hold : w.c.blobSize t.key = byteLength node.info.blocks := blobSize_of_find hfind
    have hzero : t.offset.toNat = 0 := by
      rw [hclears.2.1]
      rfl
    have hle := hclear node hfind hclears
    refine ⟨?_, ?_, ?_⟩
    · rw [hsize, hlen, hold]
      show max 0 _ = _
      omega
    · intro i hle' hlt
      rw [contents_of_blocks hblocks, hinside i hle' hlt]
    · intro i hi hout
      omega
  | @created worker hfind =>
    have hold : w.c.blobSize t.key = 0 := by
      rw [Container.blobSize, Container.blocks?, hfind]
      rfl
    refine ⟨?_, ?_, ?_⟩
    · rw [hsize, hlen, hold]
      rfl
    · intro i hle hlt
      rw [contents_of_blocks hblocks, hinside i hle hlt]
    · intro i hi _
      omega

/-- The condition of the law: the end of the range is a 64-bit number, and a put at offset 0
brings at least as many bytes as the blob has. -/
def KeepsRest (c : Container) (t : PutBlobTask) : Prop :=
  t.offset.toNat + t.size.toNat < 2 ^ 64 ∧ (t.offset = 0 → c.blobSize t.key ≤ t.size.toNat)

theorem putLaw_iff_of_outcome (h : SpaceInv w)
    (hdata : t.blobData = some data) (hput : PutOutcome ServesWell t w 0 w') :
    PutLaw w w' t data ↔ KeepsRest w.c t := by
  have h' := hput.spaceInv h
  cases hput with
  | rejected _ hrc => exact absurd rfl hrc
  | @worked data' ptr info old w₁ _ _ hok hdata' hprep hstored =>
    rw [hdata, Option.some.injEq] at hdata'
    subst hdata'
    have h₁ := hprep.spaceInv h
    refine ⟨?_, ?_⟩
    · intro hlaw
      -- The blob ends below 2^64, and so does the range.
      have hend : t.offset.toNat + t.size.toNat < 2 ^ 64 := by
        have hsize := hlaw.size
        have hlt : w'.c.blobSize t.key < 2 ^ 64 := by
          cases hfind : w'.c.blobs.find? t.key with
          | none =>
            rw [Container.blobSize, Container.blocks?, hfind]
            decide
          | some node =>
            rw [blobSize_of_find hfind]
            exact h'.sized _ _ hfind
        omega
      refine ⟨hend, ?_⟩
      intro hzero
      -- A longer blob would have been cleared and be no longer than the data now.
      obtain ⟨blocks, hblocks, hlen, _, _⟩ := stored_law h₁ hprep.pointsTo hend hstored
      rw [hprep.key] at hblocks
      have hsize := hlaw.size
      rw [blobSize_of_blocks hblocks, hlen] at hsize
      have hoff : t.offset.toNat = 0 := by
        rw [hzero]
        rfl
      cases hfind : w.c.blobs.find? t.key with
      | none =>
        rw [Container.blobSize, Container.blocks?, hfind]
        exact Nat.zero_le _
      | some node =>
        have hold : w.c.blobSize t.key = byteLength node.info.blocks := blobSize_of_find hfind
        have hiff := clears_iff h hok hfind
        cases hprep with
        | @kept node' hfind' hnot =>
          rw [hfind', Option.some.injEq] at hfind
          subst hfind
          have hempty : byteLength node'.info.blocks = 0 := by
            by_cases hc : byteLength node'.info.blocks = 0
            · exact hc
            · exact absurd (hiff.mpr ⟨hzero, hc⟩) hnot
          omega
        | cleared _ _ _ _ =>
          have hnil : byteLength ([] : List BlobBlock) = 0 := rfl
          dsimp only at hsize
          omega
        | created hnone =>
          rw [hnone] at hfind
          simp at hfind
    · rintro ⟨hend, hkeep⟩
      refine putLaw_of_prepared h₁ hprep hend ?_ hstored
      intro node hfind hclears
      have hle := hkeep hclears.2.1
      rw [blobSize_of_find hfind] at hle
      exact hle

/-- **A successful put obeys the frame law exactly when it keeps the rest of the blob.**
This is for engines whose allocations were all well served. -/
theorem put_law_iff {cfg : Config} {ts : List Task} {t : PutBlobTask} {data : Nat → UInt8}
    {w₀ : World Container Devices} (hfresh : Fresh w₀)
    (hruns : Along (Ran ServesWell cfg) ts w₀ w) (hdata : t.blobData = some data)
    (hput : Runs ServesWell (putBlob cfg t) w 0 w') : PutLaw w w' t data ↔ KeepsRest w.c t :=
  putLaw_iff_of_outcome (spaceInv_of_along hfresh hruns) hdata (runs_putBlob hput)

/-- Ten bytes at offset 0, and the state they leave. -/
def tenBytes : List Task := [.putBlob (smallPut [1] 0 10 1)]

/-- Bytes 4 to 7 of ten: the other six are still there. -/
theorem put_law_in_the_middle :
    PutLaw (runAll smallConfig tenBytes smallEngine)
      (runAll smallConfig (tenBytes ++ [.putBlob (smallPut [1] 4 4 2)]) smallEngine)
      (smallPut [1] 4 4 2) (fun _ => 2) := by
  exact (put_law_iff fresh_smallEngine (along_runAll servesWell_of_check tenBytes
    (by decide +kernel)) rfl (runs_runAll servesWell_of_check tenBytes (.putBlob _) smallEngine
      (by decide +kernel) (by decide +kernel))).mpr ⟨by decide, by decide⟩

/-- The first four bytes of ten: six bytes are lost. -/
theorem put_law_at_the_start :
    Fresh smallEngine ∧
    Along (Ran ServesAny smallConfig) tenBytes smallEngine
      (runAll smallConfig tenBytes smallEngine) ∧
    Runs ServesAny (putBlob smallConfig (smallPut [1] 0 4 2))
      (runAll smallConfig tenBytes smallEngine) 0
      (runAll smallConfig (tenBytes ++ [.putBlob (smallPut [1] 0 4 2)]) smallEngine) ∧
    ¬PutLaw (runAll smallConfig tenBytes smallEngine)
      (runAll smallConfig (tenBytes ++ [.putBlob (smallPut [1] 0 4 2)]) smallEngine)
      (smallPut [1] 0 4 2) (fun _ => 2) := by
  refine ⟨fresh_smallEngine, along_runAll servesAny_of_check tenBytes (by decide +kernel),
    runs_runAll servesAny_of_check tenBytes (.putBlob _) smallEngine (by decide +kernel)
      (by decide +kernel), ?_⟩
  intro hlaw
  exact absurd hlaw.size (by decide +kernel)

/-! ### Reads after a put -/

/-- A task about tags or other blobs. -/
def Task.Leaves (key : Bytes) : Task → Prop
  | .getOrCreateTag _ _ | .getBlob _ => True
  | .putBlob t => key ≠ t.key ∧ t.offset.toNat + t.size.toNat < 2 ^ 64
  | .delBlob tagId blobName => key ≠ compositeKey tagId blobName
  | .reorganizeBlob t => key ≠ compositeKey t.tagId t.blobName
  | _ => False

theorem Ran.contents_eq {cfg : Config} {u : Task} {key : Bytes} (h : SpaceInv w)
    (hran : Ran ServesWell cfg u w w') (hleaves : u.Leaves key) :
    contents w' key = contents w key := by
  cases ranAs_of_ran (fun _ _ _ _ => ServesWell.any) hran with
  | getOrCreateTag hout =>
    cases hout with
    | created _ _ =>
      unfold contents Container.blocks?
      rw [← newTagId_blobs w.c cfg]
      rfl
    | _ => rfl
  | putBlob hput => exact (hput.othersSame h hleaves.2).contents_eq hleaves.1
  | delBlob hdel =>
    cases hdel with
    | absent _ => rfl
    | deleted _ _ _ hfrees =>
      refine OthersSame.contents_eq (.of_sameBytes (fun k hk => ?_)
        (sameBytes_freesBlocks (fun _ _ _ _ => ServesWell.any) hfrees)) hleaves
      show ((AMap.insertOrAssign _ _ _).erase _).find? k = _
      rw [AMap.find?_erase_of_ne _ hk, AMap.find?_insertOrAssign_of_ne _ _ hk]
  | reorganizeBlob hout =>
    cases hout with
    | @reput node _ _ _ _ hput =>
      refine (hput.othersSame h ?_).contents_eq hleaves
      exact (Nat.zero_add _).trans_lt node.info.getTotalSize.toNat_lt
    | _ => rfl
  | getBlob => rfl
  | _ => exact hleaves.elim

/-- **A get returns what a put before it stored**, whatever is done to other blobs between. -/
theorem getBlob_after_putBlob {cfg : Config} {ts us : List Task} {g : GetBlobTask}
    {buffer : Nat → UInt8} {w₀ w₁ w₂ w₃ : World Container Devices} {i k : Nat} (hfresh : Fresh w₀)
    (hruns : Along (Ran ServesWell cfg) ts w₀ w) (hdata : t.blobData = some data)
    (hend : t.offset.toNat + t.size.toNat < 2 ^ 64) (hput : Runs ServesWell (putBlob cfg t) w 0 w₁)
    (hbetween : Along (Ran ServesWell cfg) us w₁ w₂) (hleaves : ∀ u ∈ us, u.Leaves t.key)
    (hkey : compositeKey g.tagId g.blobName = t.key)
    (hget : Runs ServesWell (getBlob g) w₂ (0, buffer) w₃)
    (hsize : g.offset.toNat + g.size.toNat < 2 ^ 64) (hk : k < g.size.toNat) (hi : i < t.size.toNat)
    (hat : g.offset.toNat + k = t.offset.toNat + i) : buffer k = data i := by
  have h := spaceInv_of_along hfresh hruns
  have hout := runs_putBlob hput
  have hstart : SpaceInv w₁ ∧ contents w₁ t.key (t.offset.toNat + i) = some (data i) := by
    refine ⟨hout.spaceInv h, ?_⟩
    cases hout with
    | rejected _ hrc => exact absurd rfl hrc
    | worked _ hdata' hprep hstored =>
      obtain rfl := Option.some.inj (hdata'.symm.trans hdata)
      obtain ⟨blocks, hblocks, _, hinside, _⟩ :=
        stored_law (hprep.spaceInv h) hprep.pointsTo hend hstored
      rw [hprep.key] at hblocks
      rw [contents_of_blocks hblocks, hinside _ (by omega) (by omega), Nat.add_sub_cancel_left]
  obtain ⟨h₂, hbyte⟩ := hbetween.invariant (I := fun w => SpaceInv w ∧
      contents w t.key (t.offset.toNat + i) = some (data i)) (fun u hu w w' hw hran =>
    ⟨hran.spaceInv hw.1, (congrFun (hran.contents_eq hw.1 (hleaves u hu)) _).trans hw.2⟩) hstart
  rw [← hkey, ← hat] at hbyte
  have hfound := hbyte
  rw [contents, Container.blocks?] at hfound
  cases hfind : w₂.c.blobs.find? (compositeKey g.tagId g.blobName) with
  | none => simp [hfind] at hfound
  | some node =>
    rw [hfind] at hfound
    obtain ⟨x, hloc, _⟩ := Option.map_eq_some_iff.mp hfound
    have hin := locate_isSome.mp (Option.isSome_of_eq_some hloc)
    have hgot := getBlob_reads (fun _ _ _ _ => ServesWell.any) hfind (h₂.laid hfind) hsize hget hk hin
    exact Option.some.inj (hgot.symm.trans hbyte)

/-- Another blob comes and goes. -/
def afterOthers : World Container Devices :=
  runAll smallConfig [.putBlob (smallPut [2] 0 9000 2), .delBlob ⟨1, 1⟩ [2]]
    (runAll smallConfig tenBytes smallEngine)

def laterGet : GetBlobTask := ⟨⟨1, 1⟩, [1], 2, 6, fun _ => 0⟩

theorem getBlob_afterOthers :
    (exec Devices.serve (getBlob laterGet) [] [] afterOthers).1.2 3 = 1 := by
  have hrc : (exec Devices.serve (getBlob laterGet) [] [] afterOthers).1.1 = 0 := by decide +kernel
  have hget := runs_exec servesWell_of_check (getBlob laterGet) [] [] afterOthers (by decide +kernel)
  rw [← Prod.eta (exec Devices.serve (getBlob laterGet) [] [] afterOthers).1, hrc] at hget
  exact getBlob_after_putBlob fresh_smallEngine (along_runAll servesWell_of_check [] rfl) rfl
    (by decide)
    (runs_runAll servesWell_of_check [] (.putBlob (smallPut [1] 0 10 1)) smallEngine
      (by decide +kernel) (by decide +kernel))
    (along_runAll servesWell_of_check _ (by decide +kernel)) (by simp [Task.Leaves]; decide) rfl
    hget (by decide) (k := 3) (i := 5) (by decide) (by decide) (by decide)

end Cte
end IowarpCore
