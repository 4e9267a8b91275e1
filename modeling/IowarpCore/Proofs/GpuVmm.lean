/-
What a touched page holds.

A page that is mapped and waits for no transfer holds what it should, and every page that is
not mapped can be restored: this is `Inv`.  Every call keeps it when the answers that are not
looked at are good ones and no page is used while its transfer is queued.  Touching reaches
pages in two ways: a page that is `Ready` stays so under every later touch, and one that is
queued is ready once the stream was synchronized.
-/
import IowarpCore.Uvm.GpuVmm
import IowarpCore.Lib.Along
import Mathlib.Algebra.Group.Nat.Defs

namespace IowarpCore
namespace Uvm

variable {γ : Type} {c : Config γ} {d : Driver γ} {v v' : Vmm γ} {last : Nat → γ} {p : Nat}

namespace Vmm

/-- A transfer to the page is queued. -/
abbrev Pending (v : Vmm γ) (p : Nat) : Prop := p ∈ v.transferStream.map Transfer.page

/-- The page can be used. -/
def Ready (v : Vmm γ) (p : Nat) : Prop := (v.pageTable p).mapped = true ∧ ¬ v.Pending p

/-- The store that is used holds what the page should. -/
def Saved (c : Config γ) (v : Vmm γ) (last : Nat → γ) (p : Nat) : Prop :=
  (if c.useCte then v.blobs p else v.hostBackingStore p) = some (last p)

/-- The page that is not mapped can be restored. -/
def Restorable (c : Config γ) (v : Vmm γ) (last : Nat → γ) (p : Nat) : Prop :=
  if (v.pageTable p).evictedToHost then v.Saved c last p else last p = c.fillValue

/-- A page as `mapAndBackPage_` leaves it. -/
def backed (v : Vmm γ) (p : Nat) (x : γ) : Vmm γ :=
  { v with device := Function.update v.device p (some x) }.setEntry p
    { v.pageTable p with mapped := true }

end Vmm

/-- The transfer writes what its page should hold. -/
def Transfer.Right (c : Config γ) (v : Vmm γ) (last : Nat → γ) : Transfer → Prop
  | .fromHost p => v.hostBackingStore p = some (last p)
  | .fromFreed _ => False
  | .fill p => last p = c.fillValue

structure Inv (c : Config γ) (v : Vmm γ) (last : Nat → γ) : Prop where
  truthful : ∀ p, (v.pageTable p).mapped = (v.device p).isSome
  queued : ∀ t ∈ v.transferStream, (v.pageTable t.page).mapped = true ∧ t.Right c v last
  settled : ∀ p, v.Ready p → v.device p = some (last p)
  restorable : ∀ p, (v.pageTable p).mapped = false → v.Restorable c last p

theorem inv_init (c : Config γ) (blobs : Nat → Option γ) :
    Inv c (.init blobs) (Run.init c blobs).last where
  truthful _ := rfl
  queued _ ht := absurd ht (List.not_mem_nil)
  settled _ h := Bool.noConfusion h.1
  restorable _ _ := rfl

/-! ### The stream -/

theorem runTransfers_eq (ts : List Transfer) :
    ts.foldl (runTransfer c d) v = { v with device := (ts.foldl (runTransfer c d) v).device } := by
  induction ts generalizing v with
  | nil => rfl
  | cons t ts ih =>
    rw [List.foldl_cons, ih]
    unfold runTransfer
    split <;> rfl

theorem runTransfer_right {t : Transfer} (hrun : d.transfer t.page = true)
    (hright : t.Right c v last) : runTransfer c d v t = v.load t.page (last t.page) := by
  unfold runTransfer
  rw [if_pos hrun]
  cases t with
  | fromHost p =>
    have hbuf : v.hostBackingStore p = some (last p) := hright
    simp only [transferred, Transfer.page, hbuf, Option.getD_some]
  | fromFreed p => exact hright.elim
  | fill p =>
    have hfill : last p = c.fillValue := hright
    simp only [transferred, Transfer.page, hfill]

theorem load_device {x : γ} (hmapped : (v.device p).isSome) (q : Nat) :
    (v.load p x).device q = if q = p then some x else v.device q := by
  obtain ⟨y, hy⟩ := Option.isSome_iff_exists.mp hmapped
  simp only [Vmm.load, Function.update_apply, hy, Option.map_some]

/-- Every page that a transfer is queued for holds what it should afterwards. -/
theorem runTransfers_device {ts : List Transfer} (hrun : ∀ t ∈ ts, d.transfer t.page = true)
    (hright : ∀ t ∈ ts, t.Right c v last) (hmapped : ∀ t ∈ ts, (v.device t.page).isSome)
    (q : Nat) : (ts.foldl (runTransfer c d) v).device q =
      if q ∈ ts.map Transfer.page then some (last q) else v.device q := by
  induction ts generalizing v with
  | nil => simp
  | cons t ts ih =>
    have hload := load_device (x := last t.page) (hmapped t (by simp))
    rw [List.foldl_cons, runTransfer_right (hrun t (by simp)) (hright t (by simp)), ih]
    · rw [hload]
      by_cases hq : q = t.page
      · simp [hq]
      · simp [hq]
    · exact fun t' ht' => hrun t' (List.mem_cons_of_mem _ ht')
    · exact fun t' ht' => hright t' (List.mem_cons_of_mem _ ht')
    · intro t' ht'
      rw [hload]
      split
      · rfl
      · exact hmapped t' (List.mem_cons_of_mem _ ht')

/-- All transfers that are queued succeed. -/
def Transferred (d : Driver γ) (v : Vmm γ) : Prop :=
  ∀ t ∈ v.transferStream, d.transfer t.page = true

/-- The queued transfers are right, and their pages are mapped. -/
def Queued (c : Config γ) (v : Vmm γ) (last : Nat → γ) : Prop :=
  ∀ t ∈ v.transferStream, (v.device t.page).isSome ∧ t.Right c v last

theorem syncTransfer_eq (hrun : Transferred d v) (hqueued : Queued c v last) :
    syncTransfer c d v = { v with
      transferStream := []
      device := fun q => if v.Pending q then some (last q) else v.device q } := by
  unfold syncTransfer
  rw [runTransfers_eq]
  congr 1
  funext q
  exact runTransfers_device (v := { v with transferStream := [] }) hrun
    (fun t ht => (hqueued t ht).2) (fun t ht => (hqueued t ht).1) q

theorem Inv.isQueued (h : Inv c v last) : Queued c v last := by
  intro t ht
  obtain ⟨hmapped, hright⟩ := h.queued t ht
  exact ⟨h.truthful t.page ▸ hmapped, hright⟩

theorem Inv.free (h : Inv c v last) (hp : (v.pageTable p).mapped = false) :
    v.device p = none := by
  rw [← Option.not_isSome_iff_eq_none, ← h.truthful, hp]
  exact Bool.false_ne_true

/-- What a page holds once the stream was synchronized. -/
theorem Inv.device_synced (h : Inv c v last) (q : Nat) :
    (if v.Pending q then some (last q) else v.device q) =
      if (v.pageTable q).mapped then some (last q) else none := by
  by_cases hmapped : (v.pageTable q).mapped = true
  · rw [if_pos hmapped]
    by_cases hpending : v.Pending q
    · rw [if_pos hpending]
    · rw [if_neg hpending, h.settled q ⟨hmapped, hpending⟩]
  · rw [if_neg hmapped, h.free (Bool.eq_false_iff.mpr hmapped)]
    split
    next hpending =>
      obtain ⟨t, ht, rfl⟩ := List.mem_map.mp hpending
      exact absurd (h.queued t ht).1 hmapped
    next => rfl

/-- Once the stream was synchronized every mapped page holds what it should. -/
theorem Inv.synced (h : Inv c v last) (hrun : Transferred d v) :
    syncTransfer c d v = { v with
      transferStream := []
      device := fun q => if (v.pageTable q).mapped then some (last q) else none } := by
  rw [syncTransfer_eq hrun h.isQueued]
  congr 1
  funext q
  exact h.device_synced q

/-- A state with nothing queued is right if the mapped pages hold what they should and the
others can be restored. -/
theorem inv_of_idle (hstream : v.transferStream = [])
    (hdevice : ∀ q, v.device q = if (v.pageTable q).mapped then some (last q) else none)
    (hrestorable : ∀ q, (v.pageTable q).mapped = false → v.Restorable c last q) :
    Inv c v last where
  truthful q := by
    rw [hdevice]
    cases (v.pageTable q).mapped <;> rfl
  queued t ht := by
    rw [hstream] at ht
    exact absurd ht List.not_mem_nil
  settled q hready := by
    rw [hdevice, if_pos hready.1]
  restorable := hrestorable

theorem Inv.syncTransfer (h : Inv c v last) (hrun : Transferred d v) :
    Inv c (syncTransfer c d v) last := by
  rw [h.synced hrun]
  exact inv_of_idle rfl (fun _ => rfl) h.restorable

/-! ### Mapping a page -/

/-- Mapping is undone when access cannot be set. -/
def BacksOut (d : Driver γ) : Prop := ∀ q, d.setAccess q ≠ success → d.unmap q = success

theorem mapAndBackPage_cases (hback : BacksOut d) (hfree : v.device p = none) :
    (∃ res, res ≠ success ∧ mapAndBackPage d v p = (res, v)) ∨
      mapAndBackPage d v p = (success, v.backed p (d.junk p)) := by
  unfold mapAndBackPage
  by_cases hcreate : d.create p = success
  · by_cases hmap : d.map p = success
    · have hmapped : cuMemMap d v p =
          (success, { v with device := Function.update v.device p (some (d.junk p)) }) := by
        simp [cuMemMap, hmap, hfree]
      by_cases haccess : d.setAccess p = success
      · right
        simp [hcreate, hmapped, haccess, Vmm.backed]
      · left
        refine ⟨d.setAccess p, haccess, ?_⟩
        have hundone : Function.update (Function.update v.device p (some (d.junk p))) p none =
            v.device := by
          rw [Function.update_idem, ← hfree, Function.update_eq_self]
        simp [hcreate, hmapped, haccess, cuMemUnmap, hback p haccess, hundone]
    · left
      exact ⟨d.map p, hmap, by simp [hcreate, cuMemMap, hmap]⟩
  · left
    exact ⟨d.create p, hcreate, by simp [hcreate]⟩

section

variable {x : γ}

theorem backed_table (q : Nat) : (v.backed p x).pageTable q =
    if q = p then { v.pageTable p with mapped := true } else v.pageTable q := by
  simp only [Vmm.backed, Vmm.setEntry, Function.update_apply]

@[simp] theorem backed_evictedToHost :
    ((v.backed p x).pageTable p).evictedToHost = (v.pageTable p).evictedToHost := by
  rw [backed_table, if_pos rfl]

@[simp] theorem backed_hostBackingStore :
    (v.backed p x).hostBackingStore = v.hostBackingStore := rfl

@[simp] theorem backed_blobs : (v.backed p x).blobs = v.blobs := rfl

/-- The entry of a page that was mapped and restored. -/
theorem clearEvicted_table {w : Vmm γ} (hw : w.pageTable = (v.backed p x).pageTable) :
    (w.clearEvicted p).pageTable = Function.update v.pageTable p ⟨true, false⟩ := by
  simp [Vmm.clearEvicted, Vmm.setEntry, hw, Vmm.backed]

/-- What touching keeps. -/
structure Touched (v v' : Vmm γ) : Prop where
  ready : ∀ q, v.Ready q → v'.Ready q
  entries : ∀ q, v'.pageTable q = v.pageTable q ∨ (v'.pageTable q).mapped = true

theorem Touched.refl (v : Vmm γ) : Touched v v := ⟨fun _ h => h, fun _ => .inl rfl⟩

theorem Touched.trans {v'' : Vmm γ} (h : Touched v v') (h' : Touched v' v'') : Touched v v'' where
  ready q hready := h'.ready q (h.ready q hready)
  entries q := by
    rcases h'.entries q with hsame | hmapped
    · rw [hsame]
      exact h.entries q
    · exact .inr hmapped

/-- A page that was not mapped is touched. -/
theorem Touched.of_update (hp : (v.pageTable p).mapped = false)
    (htable : v'.pageTable = Function.update v.pageTable p ⟨true, false⟩)
    (hpending : ∀ q, q ≠ p → v'.Pending q → v.Pending q) : Touched v v' where
  ready q hready := by
    have hq : q ≠ p := by
      rintro rfl
      exact Bool.false_ne_true (hp.symm.trans hready.1)
    refine ⟨?_, fun hin => hready.2 (hpending q hq hin)⟩
    rw [htable, Function.update_of_ne hq]
    exact hready.1
  entries q := by
    by_cases hq : q = p
    · right
      rw [htable, hq, Function.update_self]
    · left
      rw [htable, Function.update_of_ne hq]

theorem Vmm.Restorable.congr {q : Nat} (h : v.Restorable c last q)
    (hentry : v'.pageTable q = v.pageTable q) (hblobs : v'.blobs q = v.blobs q)
    (hhost : v'.hostBackingStore q = v.hostBackingStore q) : v'.Restorable c last q := by
  unfold Vmm.Restorable Vmm.Saved at h ⊢
  rw [hentry, hblobs, hhost]
  exact h

/-- A page is mapped and a transfer that is right is queued for it. -/
theorem Inv.enqueued (h : Inv c v last) (hp : (v.pageTable p).mapped = false) {t : Transfer}
    (hpage : t.page = p) (hright : t.Right c v last) :
    Inv c (((v.backed p x).enqueue t).clearEvicted p) last ∧
      Touched v (((v.backed p x).enqueue t).clearEvicted p) ∧
      ((((v.backed p x).enqueue t).clearEvicted p).pageTable p).mapped = true := by
  generalize hw : ((v.backed p x).enqueue t).clearEvicted p = w
  have htable : w.pageTable = Function.update v.pageTable p ⟨true, false⟩ := by
    rw [← hw]
    exact clearEvicted_table rfl
  have hdevice : w.device = Function.update v.device p (some x) := by rw [← hw]; rfl
  have hstream : w.transferStream = v.transferStream ++ [t] := by rw [← hw]; rfl
  have hhost : w.hostBackingStore = v.hostBackingStore := by rw [← hw]; rfl
  have hblobs : w.blobs = v.blobs := by rw [← hw]; rfl
  have hpending : ∀ q, w.Pending q ↔ v.Pending q ∨ q = p := by
    intro q
    simp [hstream, hpage, eq_comm]
  have htouched : Touched v w :=
    .of_update hp htable fun q hq hin => ((hpending q).mp hin).resolve_right hq
  have hright' : ∀ t' : Transfer, t'.Right c v last → t'.Right c w last := by
    intro t' ht'
    cases t' with
    | fromHost q => exact (congrFun hhost q).trans ht'
    | fromFreed q => exact ht'
    | fill q => exact ht'
  refine ⟨⟨?_, ?_, ?_, ?_⟩, htouched, by rw [htable, Function.update_self]⟩
  · intro q
    rw [htable, hdevice, Function.update_apply, Function.update_apply]
    split
    · rfl
    · exact h.truthful q
  · intro t' ht'
    rw [hstream, List.mem_append, List.mem_singleton] at ht'
    rcases ht' with hold | rfl
    · obtain ⟨hmapped, hr⟩ := h.queued t' hold
      refine ⟨?_, hright' t' hr⟩
      rcases htouched.entries t'.page with hsame | hmapped'
      · rw [hsame]
        exact hmapped
      · exact hmapped'
    · exact ⟨by rw [htable, hpage, Function.update_self], hright' t' hright⟩
  · intro q hready
    have hq : q ≠ p := fun hq => hready.2 ((hpending q).mpr (.inr hq))
    rw [hdevice, Function.update_of_ne hq]
    refine h.settled q ⟨?_, fun hin => hready.2 ((hpending q).mpr (.inl hin))⟩
    have hmapped := hready.1
    rwa [htable, Function.update_of_ne hq] at hmapped
  · intro q hunmapped
    rcases htouched.entries q with hsame | hmapped
    · refine (h.restorable q (hsame ▸ hunmapped)).congr hsame ?_ ?_
      · rw [hblobs]
      · rw [hhost]
    · exact absurd hmapped (Bool.eq_false_iff.mp hunmapped)

end

/-! ### Touching -/

theorem invalidValue_ne : invalidValue ≠ success := by decide

theorem outOfMemory_ne : outOfMemory ≠ success := by decide

/-- The page is not one to restore from the CTE. -/
def Queueable (c : Config γ) (v : Vmm γ) (q : Nat) : Prop :=
  c.useCte = true → (v.pageTable q).mapped = false → (v.pageTable q).evictedToHost = false

theorem Queueable.touched {q : Nat} (h : Queueable c v q) (htouched : Touched v v') :
    Queueable c v' q := by
  intro hcte hunmapped
  rcases htouched.entries q with hsame | hmapped
  · rw [hsame] at hunmapped ⊢
    exact h hcte hunmapped
  · exact absurd hmapped (Bool.eq_false_iff.mp hunmapped)

theorem touchPageAsync_spec (h : Inv c v last) (hback : BacksOut d) (hqueueable : Queueable c v p) :
    Inv c (touchPageAsync c d v p).2 last ∧ Touched v (touchPageAsync c d v p).2 ∧
      ((touchPageAsync c d v p).1 = success →
        ((touchPageAsync c d v p).2.pageTable p).mapped = true) := by
  unfold touchPageAsync
  by_cases htotal : c.totalPages ≤ p
  · rw [if_pos htotal]
    exact ⟨h, .refl v, fun hres => absurd hres invalidValue_ne⟩
  rw [if_neg htotal]
  cases hmapped : (v.pageTable p).mapped with
  | true =>
    rw [if_pos rfl]
    exact ⟨h, .refl v, fun _ => hmapped⟩
  | false =>
    rw [if_neg Bool.false_ne_true]
    have hrestorable := h.restorable p hmapped
    unfold Vmm.Restorable Vmm.Saved at hrestorable
    rcases mapAndBackPage_cases hback (h.free hmapped) with ⟨res, hres, hfail⟩ | hbacked
    · simp only [hfail, ne_eq, hres, not_false_eq_true, if_true]
      exact ⟨h, .refl v, fun hsuccess => hsuccess.elim⟩
    · have hqueued : ∀ t : Transfer, t.page = p → t.Right c v last →
          Inv c (((v.backed p (d.junk p)).enqueue t).clearEvicted p) last ∧
            Touched v (((v.backed p (d.junk p)).enqueue t).clearEvicted p) ∧
            (success = success →
              ((((v.backed p (d.junk p)).enqueue t).clearEvicted p).pageTable p).mapped = true) := by
        intro t hpage hright
        obtain ⟨hinv, htouched, hnow⟩ := h.enqueued (x := d.junk p) hmapped hpage hright
        exact ⟨hinv, htouched, fun _ => hnow⟩
      cases hevicted : (v.pageTable p).evictedToHost with
      | false =>
        rw [hevicted, if_neg Bool.false_ne_true] at hrestorable
        simpa [hbacked, hevicted] using hqueued (.fill p) rfl hrestorable
      | true =>
        have hcte : c.useCte = false := by
          by_contra hcte
          have hnot := hqueueable (Bool.not_eq_false _ ▸ hcte) hmapped
          exact Bool.false_ne_true (hnot.symm.trans hevicted)
        rw [hevicted, if_pos rfl, hcte, if_neg Bool.false_ne_true] at hrestorable
        simpa [hbacked, hevicted, hcte, hrestorable] using hqueued (.fromHost p) rfl hrestorable

/-- Prefetching is touching. -/
theorem prefetchFrom_spec {n target : Nat} (h : Inv c v last) (hback : BacksOut d)
    (hqueueable : ∀ q, target ≤ q → q < target + n → Queueable c v q) :
    Inv c (prefetchFrom c d n target v) last ∧ Touched v (prefetchFrom c d n target v) := by
  induction n generalizing target v with
  | zero => exact ⟨h, .refl v⟩
  | succ n ih =>
    unfold prefetchFrom
    split
    · exact ⟨h, .refl v⟩
    split
    · exact ih h fun q hle hlt => hqueueable q (by omega) (by omega)
    · obtain ⟨hinv, htouched, -⟩ :=
        touchPageAsync_spec h hback (hqueueable target (Nat.le_refl _) (by omega))
      have hnext : ∀ q, target + 1 ≤ q → q < target + 1 + n →
          Queueable c (touchPageAsync c d v target).2 q :=
        fun q hle hlt => (hqueueable q (by omega) (by omega)).touched htouched
      obtain ⟨hrest, hmore⟩ := ih hinv hnext
      exact ⟨hrest, htouched.trans hmore⟩

/-- A page is mapped and restored, with the stream synchronized. -/
theorem Inv.restored (h : Inv c v last) (hp : (v.pageTable p).mapped = false) {w : Vmm γ}
    (hstream : w.transferStream = [])
    (htable : w.pageTable = Function.update v.pageTable p ⟨true, false⟩)
    (hdevice : ∀ q, w.device q =
      if q = p ∨ (v.pageTable q).mapped = true then some (last q) else none)
    (hblobs : w.blobs = v.blobs) (hhost : ∀ q, q ≠ p → w.hostBackingStore q = v.hostBackingStore q) :
    Inv c w last ∧ Touched v w ∧ w.Ready p := by
  have hidle : ∀ q, ¬ w.Pending q := fun q hin => by
    rw [Vmm.Pending, hstream] at hin
    exact List.not_mem_nil hin
  have htouched : Touched v w := .of_update hp htable fun q _ hin => absurd hin (hidle q)
  refine ⟨inv_of_idle hstream (fun q => ?_) (fun q hunmapped => ?_), htouched, ?_, hidle p⟩
  · rw [hdevice, htable, Function.update_apply]
    by_cases hq : q = p
    · rw [if_pos (.inl hq), if_pos hq, if_pos rfl]
    · simp only [hq, false_or, if_false]
  · have hq : q ≠ p := by
      rintro rfl
      rw [htable, Function.update_self] at hunmapped
      exact Bool.noConfusion hunmapped
    have hsame : w.pageTable q = v.pageTable q := by rw [htable, Function.update_of_ne hq]
    exact (h.restorable q (hsame ▸ hunmapped)).congr hsame (congrFun hblobs q) (hhost q hq)
  · rw [htable, Function.update_self]

/-- A page that was mapped has its contents copied to it. -/
theorem copyToDevice_backed {x : γ} (h : Inv c v last) (hrun : Transferred d v)
    (hcopied : d.copy p = true) :
    copyToDevice c d (v.backed p x) p (last p) = { v.backed p x with
      transferStream := []
      device := fun q => if q = p ∨ (v.pageTable q).mapped = true then some (last q) else none } := by
  have hqueued : Queued c (v.backed p x) last := by
    intro t ht
    obtain ⟨hsome, hright⟩ := h.isQueued t ht
    refine ⟨?_, by cases t <;> exact hright⟩
    simp only [Vmm.backed, Vmm.setEntry, Function.update_apply]
    split
    · rfl
    · exact hsome
  have hsynced := syncTransfer_eq (v := v.backed p x) hrun hqueued
  simp only [copyToDevice, hsynced, hcopied, if_true, Vmm.load]
  congr 1
  funext q
  by_cases hq : q = p
  · subst hq
    have hdevice : (v.backed q x).device q = some x := Function.update_self _ _ _
    rw [Function.update_self]
    simp only [true_or, if_true, hdevice]
    split <;> rfl
  · have hdevice : (v.backed p x).device q = v.device q := Function.update_of_ne hq _ _
    rw [Function.update_of_ne hq, hdevice]
    simp only [hq, false_or]
    exact h.device_synced q

/-- The answers to a touch that restores a page are good. -/
structure RestoreOk (c : Config γ) (d : Driver γ) (v : Vmm γ) (p : Nat) : Prop where
  backsOut : BacksOut d
  transfers : Transferred d v
  copied : d.copy p = true
  got : c.useCte = true → (v.pageTable p).evictedToHost = true → d.get p = true
  queueable : ∀ q, p < q → q ≤ p + c.prefetchWindow → Queueable c v q

/-- A touch of a page that is ready, or that is mapped and restored well. -/
structure TouchOk (c : Config γ) (d : Driver γ) (v : Vmm γ) (p : Nat) : Prop where
  idle : ¬ v.Pending p
  restores : p < c.totalPages → (v.pageTable p).mapped = false → RestoreOk c d v p

theorem restorePage_spec {x : γ} (h : Inv c v last) (hp : (v.pageTable p).mapped = false)
    (hok : RestoreOk c d v p) :
    Inv c (restorePage c d (v.backed p x) p) last ∧
      Touched v (restorePage c d (v.backed p x) p) ∧
      (restorePage c d (v.backed p x) p).Ready p := by
  have hcopy := copyToDevice_backed (x := x) h hok.transfers hok.copied
  have hrestorable := h.restorable p hp
  unfold Vmm.Restorable Vmm.Saved at hrestorable
  have htable : ∀ host, (({ v.backed p x with
      transferStream := []
      hostBackingStore := host
      device := fun q => if q = p ∨ (v.pageTable q).mapped = true then some (last q) else none } :
        Vmm γ).clearEvicted p).pageTable = Function.update v.pageTable p ⟨true, false⟩ :=
    fun host => clearEvicted_table (x := x) rfl
  unfold restorePage
  cases hevicted : (v.pageTable p).evictedToHost with
  | false =>
    rw [hevicted, if_neg Bool.false_ne_true] at hrestorable
    simp only [backed_evictedToHost, hevicted, Bool.and_false, Bool.false_and,
      Bool.false_eq_true, if_false, ← hrestorable, hcopy]
    exact h.restored hp rfl (htable _) (fun _ => rfl) rfl fun _ _ => rfl
  | true =>
    rw [hevicted, if_pos rfl] at hrestorable
    cases hcte : c.useCte with
    | true =>
      rw [hcte, if_pos rfl] at hrestorable
      simp only [backed_evictedToHost, hevicted, Bool.and_self, if_true, backed_blobs,
        hrestorable, hok.got hcte hevicted, Option.getD_some, hcopy]
      exact h.restored hp rfl (htable _) (fun _ => rfl) rfl fun _ _ => rfl
    | false =>
      rw [hcte, if_neg Bool.false_ne_true] at hrestorable
      simp only [backed_evictedToHost, hevicted, Bool.false_and, Bool.false_eq_true, if_false,
        backed_hostBackingStore, hrestorable, Option.isSome_some, Bool.and_self, if_true,
        Option.getD_some, hcopy]
      refine h.restored hp rfl (htable _) (fun _ => rfl) rfl fun q hq => ?_
      exact Function.update_of_ne hq _ _

/-- A touch keeps the invariant, and a page that was touched is ready. -/
theorem touchPage_spec (h : Inv c v last) (hok : TouchOk c d v p) :
    Inv c (touchPage c d v p).2 last ∧ Touched v (touchPage c d v p).2 ∧
      ((touchPage c d v p).1 = success → (touchPage c d v p).2.Ready p) := by
  unfold touchPage
  by_cases htotal : c.totalPages ≤ p
  · rw [if_pos htotal]
    exact ⟨h, .refl v, fun hres => absurd hres invalidValue_ne⟩
  rw [if_neg htotal]
  cases hmapped : (v.pageTable p).mapped with
  | true =>
    rw [if_pos rfl]
    exact ⟨h, .refl v, fun _ => ⟨hmapped, hok.idle⟩⟩
  | false =>
    rw [if_neg Bool.false_ne_true]
    have hrestores := hok.restores (Nat.lt_of_not_le htotal) hmapped
    rcases mapAndBackPage_cases hrestores.backsOut (h.free hmapped) with
      ⟨res, hres, hfail⟩ | hbacked
    · simp only [hfail, ne_eq, hres, not_false_eq_true, if_true]
      exact ⟨h, .refl v, fun hsuccess => hsuccess.elim⟩
    · obtain ⟨hinv, htouched, hready⟩ := restorePage_spec (x := d.junk p) h hmapped hrestores
      have hprefetch : ∀ q, p + 1 ≤ q → q < p + 1 + c.prefetchWindow →
          Queueable c (restorePage c d (v.backed p (d.junk p)) p) q :=
        fun q hle hlt => (hrestores.queueable q (by omega) (by omega)).touched htouched
      obtain ⟨hrest, hmore⟩ := prefetchFrom_spec hinv hrestores.backsOut hprefetch
      simp only [hbacked, ne_eq, not_true_eq_false, if_false]
      exact ⟨hrest, htouched.trans hmore, fun _ => hmore.ready p hready⟩

/-- Each touch of the loop is a good one where it is made. -/
def TouchesOk (c : Config γ) (d : Nat → Driver γ) : Nat → Nat → Vmm γ → Prop
  | 0, _, _ => True
  | n + 1, i, v => TouchOk c (d i) v i ∧
      ((touchPage c (d i) v i).1 = success → TouchesOk c d n (i + 1) (touchPage c (d i) v i).2)

theorem touchPages_spec {d : Nat → Driver γ} {n i : Nat} (h : Inv c v last)
    (hok : TouchesOk c d n i v) :
    Inv c (touchPages c d n i v).2 last ∧ Touched v (touchPages c d n i v).2 ∧
      ((touchPages c d n i v).1 = success →
        ∀ q, i ≤ q → q < i + n → (touchPages c d n i v).2.Ready q) := by
  induction n generalizing i v with
  | zero => exact ⟨h, .refl v, fun _ q _ _ => by omega⟩
  | succ n ih =>
    obtain ⟨hfirst, hrest⟩ := hok
    obtain ⟨hinv, htouched, hready⟩ := touchPage_spec h hfirst
    unfold touchPages
    by_cases hres : (touchPage c (d i) v i).1 = success
    · obtain ⟨hinv', hmore, hlater⟩ := ih hinv (hrest hres)
      simp only [ne_eq, hres, not_true_eq_false, if_false]
      refine ⟨hinv', htouched.trans hmore, fun hdone q hle hlt => ?_⟩
      rcases Nat.eq_or_lt_of_le hle with rfl | hlt'
      · exact hmore.ready i (hready hres)
      · exact hlater hdone q hlt' (by omega)
    · simp only [ne_eq, hres, not_false_eq_true, if_true]
      exact ⟨hinv, htouched, fun hdone => hdone.elim⟩

/-! ### Evicting -/

/-- An eviction that unmaps its page has saved it and releases its memory. -/
structure EvictOk (c : Config γ) (d : Driver γ) (moved : Bool) (v : Vmm γ) (p : Nat) : Prop where
  transfers : Transferred d v
  saves : d.unmap p = success →
    moved = true ∧ (c.useCte = true → d.put p = true) ∧ d.release p = success

/-- Storing a page changes nothing about the others. -/
theorem storePage_frame (x : γ) : ∃ host blobs,
    storePage c d v p x = { v with hostBackingStore := host, blobs := blobs } ∧
      ∀ q, q ≠ p → host q = v.hostBackingStore q ∧ blobs q = v.blobs q := by
  unfold storePage
  split
  · split
    · exact ⟨_, _, rfl, fun q hq => ⟨rfl, Function.update_of_ne hq _ _⟩⟩
    · exact ⟨_, _, rfl, fun _ _ => ⟨rfl, rfl⟩⟩
  · exact ⟨_, _, rfl, fun q hq => ⟨Function.update_of_ne hq _ _, rfl⟩⟩

theorem storePage_saved (hput : c.useCte = true → d.put p = true) :
    (storePage c d v p (last p)).Saved c last p := by
  unfold Vmm.Saved storePage
  cases hcte : c.useCte with
  | true => simp [hput hcte]
  | false => simp

/-- What a page holds when nothing is queued. -/
theorem Inv.device_idle (h : Inv c v last) (hidle : v.transferStream = []) (q : Nat) :
    v.device q = if (v.pageTable q).mapped then some (last q) else none := by
  have hnone : ¬ v.Pending q := by
    rw [Vmm.Pending, hidle]
    exact List.not_mem_nil
  rw [← h.device_synced q, if_neg hnone]

/-- A page that is mapped may have anything in the stores. -/
theorem Inv.stored (h : Inv c v last) (hidle : v.transferStream = [])
    (hp : (v.pageTable p).mapped = true) {host blobs : Nat → Option γ}
    (hframe : ∀ q, q ≠ p → host q = v.hostBackingStore q ∧ blobs q = v.blobs q) :
    Inv c { v with hostBackingStore := host, blobs := blobs } last := by
  refine inv_of_idle hidle (h.device_idle hidle) fun q hunmapped => ?_
  have hq : q ≠ p := by
    rintro rfl
    exact Bool.false_ne_true (hunmapped.symm.trans hp)
  exact (h.restorable q hunmapped).congr rfl (hframe q hq).2 (hframe q hq).1

/-- A page that was saved may be unmapped. -/
theorem Inv.unmapped (h : Inv c v last) (hidle : v.transferStream = [])
    (hsaved : v.Saved c last p) :
    Inv c ({ v with device := Function.update v.device p none }.setEntry p ⟨false, true⟩) last := by
  refine inv_of_idle hidle (fun q => ?_) (fun q hunmapped => ?_)
  · simp only [Vmm.setEntry, Function.update_apply]
    split
    · rfl
    · exact h.device_idle hidle q
  · by_cases hq : q = p
    · subst hq
      unfold Vmm.Restorable Vmm.Saved
      simp only [Vmm.setEntry, Function.update_self, if_true]
      exact hsaved
    · have hentry : ({ v with device := Function.update v.device p none }.setEntry p
          ⟨false, true⟩).pageTable q = v.pageTable q := Function.update_of_ne hq _ _
      rw [hentry] at hunmapped
      exact (h.restorable q hunmapped).congr hentry rfl rfl

theorem evictWith_spec {moved : Bool} (h : Inv c v last) (hok : EvictOk c d moved v p) :
    Inv c (evictWith c d v moved p).2 last ∧ ((v.pageTable p).mapped = true →
      ¬ (evictWith c d v moved p).2.Saved c last p → (evictWith c d v moved p).1 ≠ success ∧
        ((evictWith c d v moved p).2.pageTable p).mapped = true) := by
  unfold evictWith
  by_cases htotal : c.totalPages ≤ p
  · rw [if_pos htotal]
    exact ⟨h, fun hmapped _ => ⟨invalidValue_ne, hmapped⟩⟩
  rw [if_neg htotal]
  cases hmapped : (v.pageTable p).mapped with
  | false => exact ⟨h, fun hnot => Bool.noConfusion hnot⟩
  | true =>
    rw [if_neg (by simp)]
    split
    · exact ⟨h, fun _ _ => ⟨outOfMemory_ne, hmapped⟩⟩
    have hinv := h.syncTransfer (c := c) hok.transfers
    have hsynced := h.synced hok.transfers
    generalize syncTransfer c d v = w at hinv hsynced
    have hidle : w.transferStream = [] := by rw [hsynced]
    have hmapped' : (w.pageTable p).mapped = true := by rw [hsynced]; exact hmapped
    have hdevice : w.device p = some (last p) := by rw [hinv.device_idle hidle, if_pos hmapped']
    dsimp only
    generalize hbuf : (if moved = true then (w.device p).getD (d.junk p)
      else (w.hostBackingStore p).getD (d.junk p)) = hostBuf
    obtain ⟨host, blobs, hstore, hframe⟩ :=
      storePage_frame (c := c) (d := d) (v := w) (p := p) hostBuf
    have hkept := hinv.stored hidle hmapped' hframe
    by_cases hunmap : d.unmap p = success
    · obtain ⟨hmoved, hput, hrelease⟩ := hok.saves hunmap
      have hright : hostBuf = last p := by
        rw [← hbuf, if_pos hmoved, hdevice, Option.getD_some]
      have hsaved : (storePage c d w p hostBuf).Saved c last p := hright ▸ storePage_saved hput
      rw [hstore] at hsaved ⊢
      have hdone := hkept.unmapped hidle hsaved
      simp only [cuMemUnmap, hunmap, hdevice, hrelease, ne_eq, not_true_eq_false, if_false,
        Option.isNone_some, Bool.false_eq_true]
      exact ⟨hdone, fun _ hnot => absurd hsaved hnot⟩
    · rw [hstore]
      simp only [cuMemUnmap, hunmap, ne_eq, not_false_eq_true, if_true]
      exact ⟨hkept, fun _ _ => ⟨trivial, hmapped'⟩⟩

/-! ### Runs -/

/-- A change of a page that waits for no transfer. -/
theorem write_spec {r : Run γ} {change : γ → γ} (h : Inv c r.vmm r.last)
    (hok : ¬ r.vmm.Pending p) :
    Inv c (r.write p change).vmm (r.write p change).last := by
  unfold Run.write
  by_cases hmapped : (r.vmm.pageTable p).mapped = true
  · rw [if_pos hmapped]
    have hdevice := h.settled p ⟨hmapped, hok⟩
    refine ⟨fun q => ?_, fun t ht => ?_, fun q hready => ?_, fun q hunmapped => ?_⟩
    · simp only [Function.update_apply]
      split
      next hq => rw [h.truthful q, hq, Option.isSome_map]
      next => exact h.truthful q
    · obtain ⟨hqueued, hright⟩ := h.queued t ht
      have ht' : t.page ≠ p := fun hpage => hok (hpage ▸ List.mem_map_of_mem ht)
      refine ⟨hqueued, ?_⟩
      have hlast : Function.update r.last p (change (r.last p)) t.page = r.last t.page :=
        Function.update_of_ne ht' _ _
      cases t with
      | fromHost q => exact hright.trans (congrArg some hlast.symm)
      | fromFreed q => exact hright
      | fill q => exact hlast.trans hright
    · simp only [Function.update_apply]
      split
      next hq => rw [hdevice, Option.map_some]
      next => exact h.settled q hready
    · have hq : q ≠ p := by
        rintro rfl
        exact Bool.false_ne_true (hunmapped.symm.trans hmapped)
      have hlast : Function.update r.last p (change (r.last p)) q = r.last q :=
        Function.update_of_ne hq _ _
      have hrestorable := h.restorable q hunmapped
      unfold Vmm.Restorable Vmm.Saved at hrestorable ⊢
      simp only [hlast]
      exact hrestorable
  · rw [if_neg hmapped]
    exact h

/-- The step is one that is allowed: the answers that are not looked at are good ones, no page
is used while a transfer to it is queued, and none is queued from the CTE.  Of the answers only
those to calls that are made matter. -/
def Ok (c : Config γ) (r : Run γ) : Op γ → Prop
  | .touchPage d p => TouchOk c d r.vmm p
  | .touchRange d offset size => offset.toNat + size.toNat ≤ 2 ^ 64 ∧ (size ≠ 0 →
      TouchesOk c d (lastPage c offset size + 1 - firstPage c offset) (firstPage c offset) r.vmm)
  | .touchPageAsync d p => BacksOut d ∧ Queueable c r.vmm p
  | .evictPage d p => EvictOk c d (d.copy p) r.vmm p
  | .evictPageAsync d p => EvictOk c d (d.transfer p) r.vmm p
  | .syncTransfer d => Transferred d r.vmm
  | .write p _ => ¬ r.vmm.Pending p

/-- What a step promises of the pages it is about. -/
def Served (c : Config γ) (r : Run γ) (out : CUresult × Run γ) : Op γ → Prop
  | .touchPage _ p => out.1 = success → out.2.vmm.device p = some (out.2.last p)
  | .touchRange _ offset size => out.1 = success →
      ∀ b, offset.toNat ≤ b → b < offset.toNat + size.toNat →
        out.2.vmm.device (b / c.pageSize.toNat) = some (out.2.last (b / c.pageSize.toNat))
  | .touchPageAsync _ p => out.1 = success → ∀ d, Transferred d out.2.vmm →
      (syncTransfer c d out.2.vmm).device p = some (out.2.last p)
  | .evictPage _ p | .evictPageAsync _ p => (r.vmm.pageTable p).mapped = true →
      ¬ out.2.vmm.Saved c out.2.last p →
        out.1 ≠ success ∧ (out.2.vmm.pageTable p).mapped = true
  | .syncTransfer _ => ∀ q, (out.2.vmm.pageTable q).mapped = true →
      out.2.vmm.device q = some (out.2.last q)
  | .write _ _ => True

/-- The step leaves a table that is right about the driver, and does what it promises. -/
structure Keeps (c : Config γ) (r : Run γ) (op : Op γ) : Prop where
  truthful : ∀ q, ((step c r op).2.vmm.pageTable q).mapped = ((step c r op).2.vmm.device q).isSome
  served : Served c r (step c r op) op

/-- The pages of the bytes of a range are those of the loop. -/
theorem page_of_byte {offset size : UInt64} (hfits : offset.toNat + size.toNat ≤ 2 ^ 64)
    {b : Nat} (hle : offset.toNat ≤ b) (hlt : b < offset.toNat + size.toNat) :
    firstPage c offset ≤ b / c.pageSize.toNat ∧ b / c.pageSize.toNat ≤ lastPage c offset size := by
  have hlast : (offset + size - 1).toNat = offset.toNat + size.toNat - 1 := by
    have hone : (1 : UInt64).toNat = 1 := rfl
    rw [UInt64.toNat_sub, UInt64.toNat_add, hone]
    omega
  unfold firstPage lastPage
  rw [UInt64.toNat_div, UInt64.toNat_div, hlast]
  exact ⟨Nat.div_le_div_right hle, Nat.div_le_div_right (by omega)⟩

theorem step_spec {r : Run γ} {op : Op γ} (h : Inv c r.vmm r.last) (hok : Ok c r op) :
    Inv c (step c r op).2.vmm (step c r op).2.last ∧ Served c r (step c r op) op := by
  cases op with
  | touchPage d p =>
    obtain ⟨hinv, -, hready⟩ := touchPage_spec h hok
    exact ⟨hinv, fun hres => hinv.settled p (hready hres)⟩
  | touchRange d offset size =>
    by_cases hsize : size = 0
    · have hstep : step c r (.touchRange d offset size) = (success, r) := by
        simp [step, Run.after, touchRange, hsize]
      rw [hstep]
      refine ⟨h, fun _ b hle hlt => ?_⟩
      rw [hsize, UInt64.toNat_zero] at hlt
      omega
    · have hstep : step c r (.touchRange d offset size) = r.after (touchPages c d
          (lastPage c offset size + 1 - firstPage c offset) (firstPage c offset) r.vmm) := by
        simp only [step, touchRange, hsize, if_false]
      rw [hstep]
      obtain ⟨hinv, -, hready⟩ := touchPages_spec h (hok.2 hsize)
      refine ⟨hinv, fun hres b hle hlt => ?_⟩
      obtain ⟨hfirst, hlast⟩ := page_of_byte hok.1 hle hlt
      exact hinv.settled _ (hready hres _ hfirst (by omega))
  | touchPageAsync d p =>
    obtain ⟨hinv, -, hmapped⟩ := touchPageAsync_spec h hok.1 hok.2
    refine ⟨hinv, fun hres d' hrun => ?_⟩
    have hsynced := hinv.synced (c := c) hrun
    exact (congrArg (fun w => w.device p) hsynced).trans (if_pos (hmapped hres))
  | evictPage d p => exact evictWith_spec h hok
  | evictPageAsync d p => exact evictWith_spec h hok
  | syncTransfer d =>
    have hinv := h.syncTransfer hok
    have hidle : (syncTransfer c d r.vmm).transferStream = [] := by rw [h.synced hok]
    exact ⟨hinv, fun q hmapped => (hinv.device_idle hidle q).trans (if_pos hmapped)⟩
  | write p change => exact ⟨write_spec h hok, trivial⟩

/-- **In a run of allowed steps the table is right about the driver, every touch that succeeds
gives the page its last contents, and every eviction that cannot save a page fails.** -/
theorem run_keeps {blobs : Nat → Option γ} {ops : List (Op γ)} {r : Run γ} {op : Op γ}
    (h : Along (fun op r r' => Ok c r op ∧ r' = (step c r op).2) ops (Run.init c blobs) r)
    (hok : Ok c r op) : Keeps c r op := by
  have hinv : Inv c r.vmm r.last := by
    refine h.invariant (I := fun r => Inv c r.vmm r.last) ?_ (inv_init c blobs)
    rintro op - r r' hinv ⟨hstep, rfl⟩
    exact (step_spec hinv hstep).1
  obtain ⟨hinv', hserved⟩ := step_spec hinv hok
  exact ⟨hinv'.truthful, hserved⟩

/-- All calls succeed, and memory that was not written to holds 0. -/
def answers : Driver Nat where
  create _ := success
  map _ := success
  setAccess _ := success
  unmap _ := success
  release _ := success
  mallocHost _ := true
  copy _ := true
  transfer _ := true
  put _ := true
  get _ := true
  junk _ := 0

/-- A page is changed, evicted and touched again, with another one prefetched. -/
theorem run_keeps_restored : ∃ r, Along (fun op r r' => Ok ⟨4096, 8, 5, 1, false⟩ r op ∧
      r' = (step ⟨4096, 8, 5, 1, false⟩ r op).2)
      [.touchPage answers 0, .write 0 (· + 1), .evictPage answers 0]
      (Run.init ⟨4096, 8, 5, 1, false⟩ fun _ => none) r ∧
    Keeps ⟨4096, 8, 5, 1, false⟩ r (.touchPage answers 0) := by
  have hbacks : BacksOut answers := fun _ hnot => absurd rfl hnot
  have htouch : ∀ v : Vmm Nat, ¬ v.Pending 0 → TouchOk ⟨4096, 8, 5, 1, false⟩ answers v 0 :=
    fun v hidle => ⟨hidle, fun _ _ => ⟨hbacks, fun _ _ => rfl, rfl, fun _ _ => rfl,
      fun _ _ _ hcte => Bool.noConfusion hcte⟩⟩
  have hrun : Along (fun op r r' => Ok ⟨4096, 8, 5, 1, false⟩ r op ∧
      r' = (step ⟨4096, 8, 5, 1, false⟩ r op).2)
      [.touchPage answers 0, .write 0 (· + 1), .evictPage answers 0]
      (Run.init ⟨4096, 8, 5, 1, false⟩ fun _ => none) _ :=
    ⟨_, ⟨htouch _ (by decide), rfl⟩, _, ⟨by unfold Ok; decide, rfl⟩, _,
      ⟨⟨fun _ _ => rfl, fun _ => ⟨rfl, fun _ => rfl, rfl⟩⟩, rfl⟩, rfl⟩
  exact ⟨_, hrun, run_keeps hrun (htouch _ (by decide))⟩

/-- The state after a run in which the tag has no blobs. -/
def exec (c : Config Nat) (ops : List (Op Nat)) : Run Nat :=
  ops.foldl (fun r op => (step c r op).2) (Run.init c fun _ => none)

/-- What goes wrong: a range whose second page is only prefetched, an eviction whose put fails,
a restore from the CTE that is queued, and a page whose memory cannot be released. -/
theorem success_without_contents :
    ¬ Keeps ⟨4096, 8, 5, 4, false⟩ (exec ⟨4096, 8, 5, 4, false⟩ [])
      (.touchRange (fun _ => answers) 0 8192) ∧
    ¬ Keeps ⟨4096, 8, 5, 0, true⟩ (exec ⟨4096, 8, 5, 0, true⟩ [.touchPage answers 0])
      (.evictPage { answers with put := fun _ => false } 0) ∧
    ¬ Keeps ⟨4096, 8, 5, 0, true⟩
      (exec ⟨4096, 8, 5, 0, true⟩ [.touchPage answers 0, .evictPage answers 0])
      (.touchPageAsync answers 0) ∧
    ¬ Keeps ⟨4096, 8, 5, 0, false⟩ (exec ⟨4096, 8, 5, 0, false⟩ [.touchPage answers 0])
      (.evictPage { answers with release := fun _ => 999 } 0) := by
  refine ⟨fun h => ?_, fun h => ?_, fun h => ?_, fun h => ?_⟩
  · have := h.served rfl 4096 (by decide) (by decide)
    exact absurd this (by decide)
  · have := h.served (by decide) (by unfold Vmm.Saved; decide)
    exact absurd rfl this.1
  · have := h.served rfl answers (fun _ _ => rfl)
    exact absurd this (by decide)
  · exact absurd (h.truthful 0) (by decide)

end Uvm
end IowarpCore
