/-
The helpers of the blob operations between and at their awaits.

For each helper one rule of the await logic: what it leaves behind when it is done, from
states that satisfy `I`, if `I` survives everything that is done at its awaits.  Only
three things are: freed bytes go back to a target, the round-robin counter advances, and
a pointer may turn out to dangle.  `Blind` says that `I` does not see these.

The blocks of a blob change at three points only, all of them through the pointer and in
the stretch that ends in a record: `putClear` empties the blob and logs it, `extendBlob`
adds one block for all that was missing.  That it is one block and not several, with
awaits between, takes the assumption that no target loses room while the loop waits
(`Room`).
-/
import IowarpCore.Lib.AwaitLogic
import IowarpCore.Proofs.Put

namespace IowarpCore
namespace Cte

open Bdev (Block Devices)
open Co

/-- `I` does not see dangling pointers, the round-robin counter or the room on targets. -/
structure Blind (I : Container → Prop) : Prop where
  dangle : ∀ c, I c → I { c with dangling := true }
  turn : ∀ c n, I c → I { c with roundRobinCounter := n }
  room : ∀ c t, SameLevels c.targets t → I c → I { c with targets := t }

/-- No target loses room. -/
def Room (c c' : Container) : Prop :=
  ∀ p info, c.targets.find? p = some info →
    ∃ info', c'.targets.find? p = some info' ∧ info.remainingSpace ≤ info'.remainingSpace

theorem Room.refl (c : Container) : Room c c :=
  fun _ info h => ⟨info, h, UInt64.le_refl _⟩

theorem Room.trans {c c' c'' : Container} (h : Room c c') (h' : Room c' c'') : Room c c'' := by
  intro p info hinfo
  obtain ⟨info₁, hinfo₁, hle₁⟩ := h p info hinfo
  obtain ⟨info₂, hinfo₂, hle₂⟩ := h' p info₁ hinfo₁
  exact ⟨info₂, hinfo₂, UInt64.le_trans hle₁ hle₂⟩

section

variable {ε : Type} {I : ε → Container → Prop} {G : Container → Container → Prop} {e : ε}
  {c : Container} {ptr : BlobPtr}

/-! ### Pointers and logs -/

/-- What reading through a pointer gives and leaves. -/
def Container.derefs (c : Container) (ptr : BlobPtr) : BlobInfo × Container :=
  match c.deref? ptr with
  | some info => (info, c)
  | none => (default, { c with dangling := true })

@[simp] theorem wp_deref {P : BlobInfo → ε → Container → Prop} :
    Wp I G (deref ptr) P e c ↔ P (c.derefs ptr).1 e (c.derefs ptr).2 := by
  simp only [deref, bind_eq, TaskResume.readContainer, wp_bind, wp_read, Container.derefs]
  cases c.deref? ptr with
  | none => exact Iff.rfl
  | some info => exact Iff.rfl

theorem Blind.derefs {J : Container → Prop} (hJ : Blind J) (h : J c) : J (c.derefs ptr).2 := by
  unfold Container.derefs
  cases c.deref? ptr with
  | none => exact hJ.dangle c h
  | some info => exact h

variable {P : Unit → ε → Container → Prop}

@[simp] theorem wp_updateBlob {f : BlobInfo → BlobInfo} :
    Wp I G (updateBlob ptr f) P e c ↔ P () e (c.updateBlob ptr f) := Iff.rfl

@[simp] theorem wp_modifyContainer {f : Container → Container} :
    Wp I G (TaskResume.modifyContainer f) P e c ↔ P () e (f c) := Iff.rfl

@[simp] theorem wp_readContainer {P : Container → ε → Container → Prop} :
    Wp I G TaskResume.readContainer P e c ↔ P c e c := Iff.rfl

@[simp] theorem wp_logBlobTxn {t : Wal.Txn} :
    Wp I G (logBlobTxn t) P e c ↔ ∀ worker, P () e (c.logBlob worker t) := Iff.rfl

@[simp] theorem wp_logTagTxn {t : Wal.Txn} :
    Wp I G (logTagTxn t) P e c ↔ ∀ worker, P () e (c.logTag worker t) := Iff.rfl

/-! ### Freeing -/

section

variable (hI : ∀ e, Blind (I e))

include hI

theorem wp_freeLoop (groups : List (PoolId × PoolQuery × List Block)) :
    ∀ {e : ε} {c : Container} {P : Unit → ε → Container → Prop}, I e c →
      (∀ e' c', I e' c' → P () e' c') → Wp I G (freeLoop groups) P e c := by
  induction groups with
  | nil =>
    intro e c P hc hP
    exact hP e c hc
  | cons g rest ih =>
    intro e c P hc hP
    obtain ⟨pool, query, blocks⟩ := g
    simp only [freeLoop, bind_eq, wp_bind]
    refine wp_call hc fun r e' c' hc' _ => ?_
    by_cases hr : r.returnCode = 0
    · simp only [hr, if_true, wp_bind, wp_modifyContainer]
      exact ih ((hI e').room c' _ (sameLevels_addRemaining _ _ _) hc') hP
    · simp only [hr, if_false]
      exact ih hc' hP

theorem wp_freeAllBlobBlocks {P : UInt32 → ε → Container → Prop} (hc : I e c)
    (hP : ∀ e' c', I e' c' →
      P 0 e' (c'.updateBlob ptr fun info => { info with blocks := [] })) :
    Wp I G (freeAllBlobBlocks ptr) P e c := by
  simp only [freeAllBlobBlocks, freeByPool, bind_eq, pure_eq, wp_bind, wp_deref, wp_updateBlob,
    wp_ret]
  refine wp_shuffle fun groups _ => ?_
  exact wp_freeLoop hI groups ((hI e).derefs hc) hP

theorem wp_putClear {t : PutBlobTask} {blobScore : F32} {P : UInt64 → ε → Container → Prop}
    (hc : I e c) (hkept : ∀ old e' c', I e' c' → P old e' c')
    (hcleared : ∀ e' c' worker, I e' c' → P 0 e' ((c'.updateBlob ptr fun info =>
      { info with blocks := [] }).logBlob worker (clearTxn t))) :
    Wp I G (putClear t blobScore ptr) P e c := by
  have hnot : ∀ c', I e c' →
      Wp I G (deref ptr) (fun info e c => P info.getTotalSize e c) e c' := by
    intro c' hc'
    rw [wp_deref]
    exact hkept _ _ _ ((hI e).derefs hc')
  simp only [putClear, clearBlob, bind_eq, pure_eq, wp_bind]
  by_cases hscore : (blobScore.lt F32.zero || F32.one.lt blobScore) = true
  · simp only [hscore, if_true, wp_ret, Bool.false_eq_true, if_false, wp_bind]
    exact hnot c hc
  · rw [if_neg hscore]
    simp only [wp_bind, wp_deref]
    by_cases hcond : t.offset ≠ 0 ∨ (c.derefs ptr).1.getTotalSize = 0
    · simp only [if_pos hcond, wp_ret, Bool.false_eq_true, if_false, wp_bind]
      exact hnot _ ((hI e).derefs hc)
    · rw [if_neg hcond]
      simp only [wp_bind, wp_ret]
      refine wp_freeAllBlobBlocks hI ((hI e).derefs hc) fun e' c' hc' => ?_
      exact fun worker => hcleared e' c' worker hc'

end

/-! ### Placement -/

theorem quiet_selectTargets (cfg : Config) (targets : List TargetInfo) (blobScore : F32)
    (dataSize : UInt64) : Quiet (selectTargets cfg targets blobScore dataSize) := by
  unfold selectTargets
  cases cfg.dpeType with
  | random =>
    exact quiet_bind (quiet_shuffle _) fun _ => quiet_bind (quiet_shuffle _) fun _ => trivial
  | roundRobin =>
    simp only [selectRoundRobin]
    by_cases h : targets.isEmpty = true
    · rw [if_pos h]
      trivial
    · rw [if_neg h]
      exact fun _ _ => trivial
  | maxBw =>
    have hsort : ∀ before l, Quiet (sortTargets before l) := fun _ _ =>
      quiet_bind (quiet_shuffle _) fun _ => trivial
    exact quiet_bind (hsort _ _) fun _ => quiet_bind (hsort _ _) fun _ => trivial

/-- Placement by its own, as `runs_selectTargets` has it. -/
theorem wp_selectTargets {cfg : Config} {targets : List TargetInfo} {blobScore : F32}
    {dataSize : UInt64} {P : List TargetInfo → ε → Container → Prop}
    (hP : ∀ sel n, (∀ t ∈ sel, t ∈ targets ∧ dataSize ≤ t.remainingSpace) →
      P sel e { c with roundRobinCounter := n }) :
    Wp I G (selectTargets cfg targets blobScore dataSize) P e c := by
  refine wp_of_quiet (S := fun _ _ _ _ => False) (⟨AMap.empty, fun _ _ => false⟩ : Devices)
    (quiet_selectTargets _ _ _ _) fun sel c' hrun => ?_
  obtain ⟨hsel, n, hw⟩ := runs_selectTargets hrun
  rw [World.mk.injEq] at hw
  rw [hw.1]
  exact hP sel n hsel

/-! ### Allocating -/

/-- The blob with one more block. -/
def grow (new : BlobBlock) (info : BlobInfo) : BlobInfo :=
  { info with blocks := info.blocks ++ [new] }

section

variable (hG : ∀ c c', G c c' → Room c c')

include hG

theorem wp_allocateLoop {remaining : UInt64} (hpos : remaining ≠ 0) (ts : List TargetInfo) :
    ∀ {e : ε} {c : Container} {P : UInt64 → ε → Container → Prop}, I e c →
      (∀ t ∈ ts, ∃ info, c.targets.find? t.bdevClient = some info ∧
        remaining ≤ info.remainingSpace) →
      (∀ e' c', I e' c' → P remaining e' c') →
      (∀ e' c' new, I e' c' → P 0 e' (c'.updateBlob ptr (grow new))) →
      Wp I G (allocateLoop ptr ts remaining) P e c := by
  induction ts with
  | nil =>
    intro e c P hc _ hleft _
    exact hleft e c hc
  | cons t rest ih =>
    intro e c P hc hroom hleft hgrown
    obtain ⟨info, hfind, hle⟩ := hroom t (by simp)
    have hmin : min remaining info.remainingSpace = remaining := by
      rw [UInt64.le_iff_toNat_le] at hle
      rw [← UInt64.toNat_inj, UInt64.toNat_min]
      omega
    unfold allocateLoop
    rw [if_neg hpos]
    simp only [bind_eq, wp_bind, wp_readContainer, hfind, hmin, hpos, if_false,
      allocateFromTarget, UInt64.not_lt.mpr hle, pure_eq, wp_ret]
    refine wp_call hc fun reply e' c' hc' hstep => ?_
    -- The other targets still have room when the reply is there.
    have hrest : ∀ t ∈ rest, ∃ info, c'.targets.find? t.bdevClient = some info ∧
        remaining ≤ info.remainingSpace := by
      intro t ht
      obtain ⟨info₁, hfind₁, hle₁⟩ := hroom t (List.mem_cons_of_mem _ ht)
      obtain ⟨info₂, hfind₂, hle₂⟩ := hG _ _ hstep _ _ hfind₁
      exact ⟨info₂, hfind₂, UInt64.le_trans hle₁ hle₂⟩
    cases reply.blocks with
    | nil => exact ih hc' hrest hleft hgrown
    | cons b more =>
      simp only [List.head?_cons, Option.map_some, wp_bind, wp_updateBlob]
      have hzero : remaining - remaining = 0 := by simp
      rw [hzero]
      have hdone := hgrown e' c' ⟨info.bdevClient, info.targetQuery, b.offset, remaining⟩ hc'
      cases rest with
      | nil => exact hdone
      | cons t' rest' =>
        unfold allocateLoop
        rw [if_pos rfl]
        exact hdone

theorem wp_extendBlob (hI : ∀ e, Blind (I e)) {cfg : Config} {offset size : UInt64}
    {blobScore : F32} {level : Int} {P : UInt32 → ε → Container → Prop} (hc : I e c)
    (hfailed : ∀ err e' c', err ≠ 0 → I e' c' → P err e' c')
    (hfits : ∀ e' c', I e' c' → P 0 e' c')
    (hgrown : ∀ e' c' new, I e' c' → P 0 e' (c'.updateBlob ptr (grow new))) :
    Wp I G (extendBlob cfg ptr offset size blobScore level) P e c := by
  simp only [extendBlob, bind_eq, pure_eq, wp_bind, wp_deref]
  have hc₁ : I e (c.derefs ptr).2 := (hI e).derefs hc
  generalize (c.derefs ptr).1 = info at *
  generalize (c.derefs ptr).2 = c₁ at *
  by_cases hfit : offset + size ≤ info.getTotalSize
  · rw [if_pos hfit]
    exact hfits e c₁ hc₁
  rw [if_neg hfit]
  have hpos : offset + size - info.getTotalSize ≠ 0 := by
    intro hzero
    have := congrArg UInt64.toNat hzero
    rw [UInt64.toNat_sub_of_le _ _ (UInt64.le_of_lt (UInt64.not_le.mp hfit))] at this
    rw [UInt64.le_iff_toNat_le] at hfit
    simp only [UInt64.reduceToNat] at this
    omega
  simp only [wp_bind, wp_readContainer]
  refine wp_shuffle fun available hperm => ?_
  by_cases hnone : available.isEmpty = true
  · rw [if_pos hnone]
    exact hfailed 1 e c₁ (by decide) hc₁
  rw [if_neg hnone]
  simp only [wp_bind]
  refine wp_selectTargets fun selected n hsel => ?_
  have hc₂ := (hI e).turn c₁ n hc₁
  generalize hordered : (if level > 0 then
    selected.filter (fun t => !(t.persistenceLevel.toInt < level)) else selected) = ordered
  have hsub : ∀ t ∈ ordered, t ∈ selected := by
    intro t ht
    rw [← hordered] at ht
    by_cases hlevel : level > 0
    · rw [if_pos hlevel] at ht
      exact (List.mem_filter.mp ht).1
    · rw [if_neg hlevel] at ht
      exact ht
  by_cases hempty : ordered.isEmpty = true
  · rw [if_pos hempty]
    exact hfailed 2 e _ (by decide) hc₂
  rw [if_neg hempty]
  simp only [wp_bind]
  refine wp_allocateLoop hG hpos ordered hc₂ ?_ ?_ ?_
  · intro t ht
    obtain ⟨hmem, hroom⟩ := hsel t (hsub t ht)
    exact ⟨t, infos_find (hperm.mem_iff.mp hmem), hroom⟩
  · intro e' c' hc'
    rw [if_pos (UInt64.pos_iff_ne_zero.mpr hpos)]
    exact hfailed 3 e' c' (by decide) hc'
  · intro e' c' new hc'
    exact hgrown e' c' new hc'

end

/-! ### The rest of a put -/

/-- The container after the record of all blocks a pointer leads to. -/
def Container.logsBlocks (c : Container) (worker : Nat) (t : PutBlobTask) (ptr : BlobPtr) :
    Container :=
  (c.derefs ptr).2.logExtend worker t (c.derefs ptr).1.blocks

theorem wp_logBlocks {t : PutBlobTask}
    (hP : ∀ worker, P () e (c.logsBlocks worker t ptr)) : Wp I G (logBlocks t ptr) P e c := by
  simp only [logBlocks, bind_eq, pure_eq, wp_bind, wp_deref]
  unfold Container.logsBlocks Container.logExtend at hP
  by_cases hempty : (c.derefs ptr).1.blocks.isEmpty = true
  · simp only [hempty, if_true, wp_ret] at hP ⊢
    exact hP 0
  · simp only [hempty, Bool.false_eq_true, if_false, wp_logBlobTxn] at hP ⊢
    exact hP

theorem wp_modifyExistingData {blocks : List BlobBlock} {data : Nat → UInt8}
    {size offset : UInt64} {P : UInt32 → ε → Container → Prop} (hc : I e c)
    (hP : ∀ err e' c', I e' c' → P err e' c') :
    Wp I G (modifyExistingData blocks data size offset) P e c := by
  simp only [modifyExistingData, bind_eq, pure_eq, wp_bind, wp_ret]
  exact wp_callAll hc fun rs e' c' hc' _ => hP _ e' c' hc'

theorem wp_resolveScore (hI : ∀ e, Blind (I e)) {score : F32} {found : Option BlobPtr}
    {P : F32 → ε → Container → Prop} (hc : I e c) (hP : ∀ s c', I e c' → P s e c') :
    Wp I G (resolveScore score found) P e c := by
  unfold resolveScore
  by_cases hneg : score.lt F32.zero = true
  · rw [if_pos hneg]
    cases found with
    | none => exact hP F32.one c hc
    | some ptr =>
      simp only [bind_eq, pure_eq, wp_bind, wp_deref, wp_ret]
      exact hP _ _ ((hI e).derefs hc)
  · rw [if_neg hneg]
    exact hP score c hc

end

end Cte
end IowarpCore
