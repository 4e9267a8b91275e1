/-
What the frecency engine keeps in order, and what its scores are worth.

`Partitioned` is the shape of every state: slots and free slots share out the arrays,
hot and cold blobs are different blobs, scores of hot blobs are positive.  The
score law compares an engine with its history, the sum over a blob's accesses of the
decay since.  It holds along a run exactly as long as no step of the run takes one of
the turns in which the code decays twice, forgets an access, skips a blob or faults.
-/
import IowarpCore.Wrapper.Frecency
import Mathlib.Algebra.Order.Field.Power
import Mathlib.Tactic.Linarith
import Mathlib.Tactic.Positivity

namespace IowarpCore

namespace Frecency

/-! ### The decay factor -/

theorem decay_pos : 0 < DECAY_FACTOR := by
  unfold DECAY_FACTOR
  norm_num

theorem decay_ne_one : DECAY_FACTOR ≠ 1 := by
  unfold DECAY_FACTOR
  norm_num

theorem powi_pos (missedTicks : Nat) : 0 < powi missedTicks := zpow_pos decay_pos _

/-- The lazy decay is none exactly when the age, as `i32`, is. -/
theorem powi_eq_one_iff {missedTicks : Nat} :
    powi missedTicks = 1 ↔ Int.bmod missedTicks (2 ^ 32) = 0 := by
  unfold powi
  exact zpow_eq_one_iff_right₀ decay_pos.le decay_ne_one

/-- The score after the lazy decay of an access. -/
theorem lazy_eq (score : ℚ) (missedTicks : Nat) :
    (if 0 < missedTicks then score * powi missedTicks else score) = score * powi missedTicks := by
  split
  · rfl
  · rename_i hzero
    obtain rfl : missedTicks = 0 := by omega
    have hone : powi 0 = 1 := by rw [powi_eq_one_iff, Nat.cast_zero, Int.zero_bmod]
    rw [hone, mul_one]

namespace HotSet

variable {hot : HotSet} {b b' : UInt64} {slot slot' : Slot} {scoresPtr : Nat}

/-- Slots and free slots share out the arrays, and each slot has its blob's key. -/
structure Ordered (hot : HotSet) : Prop where
  key : ∀ b slot, hot.find b = some slot → hot.keys slot = b
  nodup : hot.freeSlots.Nodup
  free : ∀ slot, slot ∈ hot.freeSlots ↔ ∀ b, hot.find b ≠ some slot
  score : ∀ b slot, hot.find b = some slot → 0 < hot.scores slot

/-- A slot has one blob. -/
theorem Ordered.slot_inj (hhot : hot.Ordered) (h : hot.find b = some slot)
    (h' : hot.find b' = some slot) : b = b' := by
  rw [← hhot.key b slot h, hhot.key b' slot h']

theorem Ordered.slot_ne (hhot : hot.Ordered) (hne : b' ≠ b) (h : hot.find b = some slot)
    (h' : hot.find b' = some slot') : slot' ≠ slot := by
  rintro rfl
  exact hne (hhot.slot_inj h' h)

theorem find_new (scoresPtr : Nat) (b : UInt64) : (HotSet.new scoresPtr).find b = none := AMap.find?_empty b

theorem freeSlots_new : (HotSet.new scoresPtr).freeSlots = List.finRange HOT_SET_SIZE := by
  simp only [new]

theorem ordered_new : (HotSet.new scoresPtr).Ordered := by
  refine ⟨?_, ?_, ?_, ?_⟩
  · intro b slot h
    rw [find_new] at h
    exact absurd h (by simp)
  · rw [freeSlots_new]
    exact List.nodup_finRange _
  · intro slot
    rw [freeSlots_new]
    refine iff_of_true (List.mem_finRange slot) fun b => ?_
    rw [find_new]
    simp
  · intro b slot h
    rw [find_new] at h
    exact absurd h (by simp)

/-- What decides whether a hot set is in order: its map, its keys and free slots, and which
scores are positive. -/
theorem Ordered.congr {hot' : HotSet} (hhot : hot.Ordered) (hkeys : hot'.keys = hot.keys)
    (hmap : hot'.keyToSlot = hot.keyToSlot) (hfree : hot'.freeSlots = hot.freeSlots)
    (hscore : ∀ slot, 0 < hot.scores slot → 0 < hot'.scores slot) : hot'.Ordered := by
  have hfind : ∀ b, hot'.find b = hot.find b := fun b => by rw [find, find, hmap]
  refine ⟨?_, ?_, ?_, ?_⟩
  · intro b slot h
    rw [hkeys]
    exact hhot.key b slot (by rw [← hfind, h])
  · rw [hfree]
    exact hhot.nodup
  · intro slot
    simp only [hfree, hfind]
    exact hhot.free slot
  · intro b slot h
    exact hscore slot (hhot.score b slot (by rw [← hfind, h]))

/-- As many slots are in use as the map has entries. -/
theorem Ordered.activeCount_eq (hhot : hot.Ordered) :
    hot.activeCount = hot.keyToSlot.entries.length := by
  -- the slots in use and the free ones are all of them, each once
  have hslots : (hot.keyToSlot.entries.map Prod.snd).Nodup := by
    refine hot.keyToSlot.entries_nodup.map_on ?_
    rintro ⟨b, slot⟩ hb ⟨b', slot'⟩ hb' heq
    obtain rfl : slot = slot' := heq
    rw [hhot.slot_inj (AMap.find?_eq_some_iff.mpr hb) (AMap.find?_eq_some_iff.mpr hb')]
  have hall : (hot.keyToSlot.entries.map Prod.snd ++ hot.freeSlots).Nodup := by
    refine hslots.append hhot.nodup ?_
    intro slot hslot hfree
    obtain ⟨⟨b, slot'⟩, hb, rfl⟩ := List.mem_map.mp hslot
    exact (hhot.free slot').mp hfree b (AMap.find?_eq_some_iff.mpr hb)
  have hperm : (hot.keyToSlot.entries.map Prod.snd ++ hot.freeSlots).Perm
      (List.finRange HOT_SET_SIZE) := by
    refine (List.perm_ext_iff_of_nodup hall (List.nodup_finRange _)).mpr fun slot => ?_
    refine iff_of_true ?_ (List.mem_finRange slot)
    rw [List.mem_append]
    by_cases hfree : slot ∈ hot.freeSlots
    · exact .inr hfree
    · rw [hhot.free, not_forall] at hfree
      obtain ⟨b, hb⟩ := hfree
      rw [not_not] at hb
      exact .inl (List.mem_map.mpr ⟨(b, slot), AMap.find?_eq_some_iff.mp hb, rfl⟩)
  have hlen := hperm.length_eq
  rw [List.length_append, List.length_map, List.length_finRange] at hlen
  rw [activeCount, ← hlen, Nat.add_sub_cancel]

/-! ### Insertion and removal -/

/-- A new blob takes a free slot, or there is none. -/
theorem insert_spec (hhot : hot.Ordered) (h : hot.find b = none) :
    (hot.freeSlots = [] ∧ hot.insert b = (hot, none)) ∨
      ∃ hot' slot, hot.insert b = (hot', some slot) ∧ hot'.Ordered ∧
        (∀ x, hot'.find x = if x = b then some slot else hot.find x) ∧
        hot'.scores = Function.update hot.scores slot 1 ∧
        hot'.counts = Function.update hot.counts slot 1 ∧
        hot'.lastUpdates = Function.update hot.lastUpdates slot hot.currentTick ∧
        hot'.currentTick = hot.currentTick ∧ (∀ x, hot.find x ≠ some slot) := by
  cases hslots : hot.freeSlots with
  | nil =>
    refine .inl ⟨rfl, ?_⟩
    simp only [insert, h, hslots]
  | cons slot rest =>
    have hnodup := hhot.nodup
    rw [hslots, List.nodup_cons] at hnodup
    have hfree : ∀ x, hot.find x ≠ some slot :=
      (hhot.free slot).mp (by rw [hslots]; exact List.mem_cons_self)
    right
    have hone : DEFAULT_SCORE + 1 = 1 := zero_add 1
    refine ⟨{ hot with
        scores := Function.update hot.scores slot 1
        counts := Function.update hot.counts slot 1
        lastUpdates := Function.update hot.lastUpdates slot hot.currentTick
        keys := Function.update hot.keys slot b
        keyToSlot := hot.keyToSlot.insertOrAssign b slot
        freeSlots := rest }, slot, by simp only [insert, h, hslots, hone], ?_,
      fun x => AMap.find?_insertOrAssign _ _ _ _, rfl, rfl, rfl, rfl, hfree⟩
    refine ⟨?_, hnodup.2, ?_, ?_⟩
    · intro x slot' hx
      rw [find, AMap.find?_insertOrAssign] at hx
      split at hx
      · rename_i hxb
        obtain rfl := Option.some.inj hx
        exact (Function.update_self slot b hot.keys).trans hxb.symm
      · have hne : slot' ≠ slot := fun heq => hfree x (by rw [find, hx, heq])
        exact (Function.update_of_ne hne b hot.keys).trans (hhot.key x slot' hx)
    · intro slot'
      simp only [find, AMap.find?_insertOrAssign]
      constructor
      · intro hmem x hx
        split at hx
        · obtain rfl := Option.some.inj hx
          exact hnodup.1 hmem
        · exact (hhot.free slot').mp (by rw [hslots]; exact List.mem_cons_of_mem _ hmem) x hx
      · intro hnone
        have hne : slot' ≠ slot := by
          rintro rfl
          exact hnone b (if_pos rfl)
        have hmem : slot' ∈ hot.freeSlots := by
          refine (hhot.free slot').mpr fun x hx => ?_
          have hxb : x ≠ b := by
            rintro rfl
            rw [h] at hx
            exact absurd hx (by simp)
          exact hnone x (by rw [if_neg hxb]; exact hx)
        rw [hslots, List.mem_cons] at hmem
        exact hmem.resolve_left hne
    · intro x slot' hx
      rw [find, AMap.find?_insertOrAssign] at hx
      split at hx
      · obtain rfl := Option.some.inj hx
        exact one_pos.trans_eq (Function.update_self slot 1 hot.scores).symm
      · have hne : slot' ≠ slot := fun heq => hfree x (by rw [find, hx, heq])
        exact (hhot.score x slot' hx).trans_eq (Function.update_of_ne hne 1 hot.scores).symm

theorem remove_ordered (hhot : hot.Ordered) (h : hot.find b = some slot) :
    (hot.remove slot).Ordered ∧
      ∀ x, (hot.remove slot).find x = if x = b then none else hot.find x := by
  have hfind : ∀ x, (hot.remove slot).find x = if x = b then none else hot.find x := by
    intro x
    rw [find, remove, hhot.key b slot h]
    exact AMap.find?_erase _ _ _
  refine ⟨⟨?_, ?_, ?_, ?_⟩, hfind⟩
  · intro x slot' hx
    rw [hfind] at hx
    split at hx
    · exact absurd hx (by simp)
    · rename_i hxb
      have hne := hhot.slot_ne hxb h hx
      simp only [remove, Function.update_of_ne hne]
      exact hhot.key x slot' hx
  · refine List.nodup_cons.mpr ⟨?_, hhot.nodup⟩
    intro hmem
    exact (hhot.free slot).mp hmem b h
  · intro slot'
    simp only [hfind]
    constructor
    · intro hmem x hx
      split at hx
      · exact absurd hx (by simp)
      · rename_i hxb
        cases List.mem_cons.mp hmem with
        | inl heq => exact hhot.slot_ne hxb h hx heq
        | inr hmem => exact (hhot.free slot').mp hmem x hx
    · intro hnone
      by_cases heq : slot' = slot
      · rw [heq]
        exact List.mem_cons_self
      · refine List.mem_cons_of_mem _ ((hhot.free slot').mpr fun x hx => ?_)
        have hxb : x ≠ b := by
          rintro rfl
          exact heq (Option.some.inj (hx.symm.trans h))
        exact hnone x (by rw [if_neg hxb]; exact hx)
  · intro x slot' hx
    rw [hfind] at hx
    split at hx
    · exact absurd hx (by simp)
    · rename_i hxb
      have hne := hhot.slot_ne hxb h hx
      simp only [remove, Function.update_of_ne hne]
      exact hhot.score x slot' hx

/-! ### Decay -/

/-- After some chunks the slots in front of them have decayed. -/
theorem foldlM_decayLanes (haligned : scoresPtr % AVX2_ALIGNMENT = 0) (scores : Slot → ℚ)
    (chunks : Nat) :
    (List.range chunks).foldlM (fun scores chunk => decayLanes scoresPtr (chunk * 4) scores) scores =
      some fun slot : Slot => if slot < chunks * 4 then scores slot * DECAY_FACTOR else scores slot := by
  unfold AVX2_ALIGNMENT at haligned
  induction chunks with
  | zero => simp
  | succ chunks ih =>
    have hchunk : (scoresPtr + chunks * 4 * 8) % AVX2_ALIGNMENT = 0 := by
      unfold AVX2_ALIGNMENT
      omega
    rw [List.range_succ, List.foldlM_append, ih, Option.bind_eq_bind, Option.bind_some,
      List.foldlM_cons, decayLanes, if_pos hchunk, Option.bind_eq_bind, Option.bind_some,
      List.foldlM_nil]
    refine congrArg some (funext fun slot => ?_)
    by_cases hlow : (slot : Nat) < chunks * 4
    · rw [if_neg (by omega), if_pos hlow, if_pos (by omega)]
    · by_cases hhigh : (slot : Nat) < chunks * 4 + 4
      · rw [if_pos ⟨by omega, hhigh⟩, if_neg hlow, if_pos (by omega)]
      · rw [if_neg (by omega), if_neg hlow, if_neg (by omega)]

/-- The vector path decays every slot, or faults in its first chunk. -/
theorem batchDecaySimd_eq (hot : HotSet) :
    hot.batchDecaySimd = if hot.scoresPtr % AVX2_ALIGNMENT = 0 then
      some { hot with scores := fun slot => hot.scores slot * DECAY_FACTOR } else none := by
  by_cases haligned : hot.scoresPtr % AVX2_ALIGNMENT = 0
  · rw [if_pos haligned, batchDecaySimd, foldlM_decayLanes haligned, Option.bind_eq_bind,
      Option.bind_some]
    refine congrArg (fun scores => some { hot with scores := scores }) (funext fun slot => ?_)
    by_cases hlt : (slot : Nat) < HOT_SET_SIZE / 4 * 4
    · exact (if_neg (by omega)).trans (if_pos hlt)
    · exact (if_pos (by omega)).trans (congrArg (· * DECAY_FACTOR) (if_neg hlt))
  · have hfirst : decayLanes hot.scoresPtr (0 * 4) hot.scores = none := if_neg haligned
    rw [if_neg haligned, batchDecaySimd,
      show HOT_SET_SIZE / 4 = 127 + 1 from rfl, List.range_succ_eq_map, List.foldlM_cons, hfirst]
    rfl

/-- A decayed score is another one. -/
theorem decayed_ne {score : ℚ} (hscore : 0 < score) : score * DECAY_FACTOR ≠ score := fun heq =>
  decay_ne_one (mul_left_cancel₀ hscore.ne' (heq.trans (mul_one score).symm))

end HotSet

namespace FrecencyEngine

variable {avx2 : Bool} {e e' : FrecencyEngine} {b : UInt64} {scoresPtr : Nat}

/-- What a cold entry is worth after one more access. -/
def bumped (tick : Nat) (entry : ColdEntry) : ColdEntry :=
  ⟨entry.score * powi (tick - entry.lastUpdate) + 1, entry.count + 1, tick⟩

/-- A hot set whose new blob has a cold entry's values. -/
def promoted (hot : HotSet) (slot : Slot) (entry : ColdEntry) : HotSet :=
  { hot with
    scores := Function.update hot.scores slot entry.score
    counts := Function.update hot.counts slot entry.count
    lastUpdates := Function.update hot.lastUpdates slot entry.lastUpdate }

/-- What an access does: the blob is hot, or new with a free slot, or new without one, or
cold and promoted, or cold and stays so. -/
theorem recordAccess_cases (hhot : e.hot.Ordered) (b : UInt64) :
    (∃ slot, e.hot.find b = some slot ∧
      (e.recordAccess b).1 = { e with hot := (e.hot.recordAccess slot).1 }) ∨
    (e.hot.find b = none ∧ e.cold.find? b = none ∧ ∃ hot' slot, e.hot.insert b = (hot', some slot) ∧
      (e.recordAccess b).1 = { e with hot := hot' }) ∨
    (e.hot.find b = none ∧ e.cold.find? b = none ∧ e.hot.freeSlots = [] ∧
      (e.recordAccess b).1 = { e with cold := e.cold.insertOrAssign b ColdEntry.new }) ∨
    (e.hot.find b = none ∧ ∃ entry hot' slot, e.cold.find? b = some entry ∧
      e.hot.insert b = (hot', some slot) ∧ (e.recordAccess b).1 =
        { e with hot := promoted hot' slot (bumped e.tick entry), cold := e.cold.erase b }) ∨
    (e.hot.find b = none ∧ ∃ entry cold', e.cold.find? b = some entry ∧
      (∀ x, cold'.find? x = if x = b then some (bumped e.tick entry) else e.cold.find? x) ∧
      (e.recordAccess b).1 = { e with cold := cold' }) := by
  cases hfind : e.hot.find b with
  | some slot => exact .inl ⟨slot, rfl, by simp only [recordAccess, hfind]⟩
  | none =>
    right
    cases hcold : e.cold.find? b with
    | none =>
      obtain ⟨hfull, hinsert⟩ | ⟨hot', slot, hinsert, -⟩ := HotSet.insert_spec hhot hfind
      · exact .inr (.inl ⟨rfl, rfl, hfull, by simp only [recordAccess, hfind, hcold, hinsert]⟩)
      · exact .inl ⟨rfl, rfl, hot', slot, hinsert, by
          simp only [recordAccess, hfind, hcold, hinsert]⟩
    | some entry =>
      right
      right
      obtain ⟨hfull, hinsert⟩ | ⟨hot', slot, hinsert, -⟩ := HotSet.insert_spec hhot hfind
      · -- no free slot: the entry is written back either way
        right
        refine ⟨rfl, entry, if 3 < entry.count + 1 then
          (e.cold.erase b).insertOrAssign b (bumped e.tick entry)
          else e.cold.insertOrAssign b (bumped e.tick entry), rfl, ?_, ?_⟩
        · intro x
          split
          · rw [AMap.find?_insertOrAssign, AMap.find?_erase]
            split <;> rfl
          · exact AMap.find?_insertOrAssign _ _ _ _
        · simp only [recordAccess, hfind, hcold, hinsert, lazy_eq, bumped]
          split <;> rfl
      · by_cases hpromote : 3 < entry.count + 1
        · refine .inl ⟨rfl, entry, hot', slot, rfl, hinsert, ?_⟩
          simp only [recordAccess, hfind, hcold, hinsert, lazy_eq, bumped, if_pos hpromote, promoted]
        · refine .inr ⟨rfl, entry, _, rfl, fun x => AMap.find?_insertOrAssign _ _ _ _, ?_⟩
          simp only [recordAccess, hfind, hcold, lazy_eq, bumped, if_neg hpromote]

/-- A new blob takes a free slot. -/
theorem recordAccess_fresh (hhot : e.hot.Ordered) (hfind : e.hot.find b = none)
    (hcold : e.cold.find? b = none) (hfree : e.hot.freeSlots ≠ []) :
    ∃ hot' slot, e.hot.insert b = (hot', some slot) ∧ (e.recordAccess b).1 = { e with hot := hot' } := by
  obtain ⟨hfull, -⟩ | ⟨hot', slot, hinsert, -⟩ := HotSet.insert_spec hhot hfind
  · exact absurd hfull hfree
  · exact ⟨hot', slot, hinsert, by simp only [recordAccess, hfind, hcold, hinsert]⟩

theorem freeSlots_ne_nil : (new scoresPtr).hot.freeSlots ≠ [] := by
  intro hnil
  have hlen := congrArg List.length (HotSet.freeSlots_new.symm.trans hnil)
  rw [List.length_finRange] at hlen
  exact absurd hlen (by decide)

/-! ### The partition -/

/-- What holds of every state: the hot set is in order, no blob is hot and cold, and the
two ticks are one. -/
structure Partitioned (e : FrecencyEngine) : Prop where
  ordered : e.hot.Ordered
  disjoint : ∀ b, e.hot.find b ≠ none → e.cold.find? b = none
  tick : e.hot.currentTick = e.tick
  cold : ∀ b entry, e.cold.find? b = some entry → 0 ≤ entry.score

theorem partitioned_new : Partitioned (new scoresPtr) where
  ordered := HotSet.ordered_new
  disjoint _ _ := rfl
  tick := rfl
  cold _ _ h := absurd h (by simp [new])

/-- Only the scores of a hot set, its counts and its times are written by an access. -/
theorem ordered_recordAccess (hhot : e.hot.Ordered) {slot : Slot} (hslot : 0 < e.hot.scores slot) :
    (e.hot.recordAccess slot).1.Ordered := by
  refine hhot.congr rfl rfl rfl ?_
  intro slot' hpos
  simp only [HotSet.recordAccess, lazy_eq]
  by_cases heq : slot' = slot
  · rw [heq, Function.update_self]
    have := mul_pos hslot (powi_pos (e.hot.currentTick - e.hot.lastUpdates slot))
    linarith
  · rw [Function.update_of_ne heq]
    exact hpos

theorem bumped_pos {tick : Nat} {entry : ColdEntry} (hscore : 0 ≤ entry.score) :
    0 < (bumped tick entry).score := by
  have := mul_nonneg hscore (powi_pos (tick - entry.lastUpdate)).le
  simp only [bumped]
  linarith

theorem ordered_promoted {hot : HotSet} (hhot : hot.Ordered) (slot : Slot) {entry : ColdEntry}
    (hscore : 0 < entry.score) : (promoted hot slot entry).Ordered := by
  refine hhot.congr rfl rfl rfl ?_
  intro slot' hpos
  simp only [promoted]
  by_cases heq : slot' = slot
  · rw [heq, Function.update_self]
    exact hscore
  · rw [Function.update_of_ne heq]
    exact hpos

/-- A new blob was not cold. -/
theorem Partitioned.insert (hpart : Partitioned e) (hfind : e.hot.find b = none) {hot' : HotSet}
    {slot : Slot} (hinsert : e.hot.insert b = (hot', some slot)) :
    hot'.Ordered ∧ hot'.currentTick = e.tick ∧
      ∀ x, hot'.find x = if x = b then some slot else e.hot.find x := by
  obtain ⟨-, hfull⟩ | ⟨hot₁, slot₁, hinsert₁, hordered, hfind₁, -, -, -, htick, -⟩ :=
    HotSet.insert_spec hpart.ordered hfind
  · rw [hinsert] at hfull
    exact absurd hfull (by simp)
  · rw [hinsert, Prod.mk.injEq, Option.some.injEq] at hinsert₁
    obtain ⟨rfl, rfl⟩ := hinsert₁
    exact ⟨hordered, htick.trans hpart.tick, hfind₁⟩

theorem Partitioned.recordAccess (hpart : Partitioned e) (b : UInt64) :
    Partitioned (e.recordAccess b).1 := by
  obtain ⟨slot, hfind, heq⟩ | ⟨hfind, hcold, hot', slot, hinsert, heq⟩ | ⟨hfind, hcold, -, heq⟩ |
    ⟨hfind, entry, hot', slot, hcold, hinsert, heq⟩ | ⟨hfind, entry, cold', hcold, hcold', heq⟩ :=
    recordAccess_cases hpart.ordered b <;> rw [heq]
  · exact ⟨ordered_recordAccess hpart.ordered (hpart.ordered.score b slot hfind), hpart.disjoint,
      hpart.tick, hpart.cold⟩
  · obtain ⟨hordered, htick, hfind'⟩ := hpart.insert hfind hinsert
    refine ⟨hordered, ?_, htick, hpart.cold⟩
    intro x hx
    rw [hfind'] at hx
    split at hx
    · rename_i hxb
      rw [hxb]
      exact hcold
    · exact hpart.disjoint x hx
  · refine ⟨hpart.ordered, ?_, hpart.tick, ?_⟩
    · intro x hx
      have hxb : x ≠ b := by
        rintro rfl
        exact hx hfind
      rw [AMap.find?_insertOrAssign, if_neg hxb]
      exact hpart.disjoint x hx
    · intro x entry hx
      rw [AMap.find?_insertOrAssign] at hx
      split at hx
      · obtain rfl := Option.some.inj hx
        exact le_refl (0 : ℚ)
      · exact hpart.cold x entry hx
  · obtain ⟨hordered, htick, hfind'⟩ := hpart.insert hfind hinsert
    refine ⟨ordered_promoted hordered slot (bumped_pos (hpart.cold b entry hcold)), ?_, htick, ?_⟩
    · intro x hx
      rw [AMap.find?_erase]
      split
      · rfl
      · rename_i hxb
        have hx' : hot'.find x ≠ none := hx
        rw [hfind', if_neg hxb] at hx'
        exact hpart.disjoint x hx'
    · intro x entry' hx
      rw [AMap.find?_erase] at hx
      split at hx
      · exact absurd hx (by simp)
      · exact hpart.cold x entry' hx
  · refine ⟨hpart.ordered, ?_, hpart.tick, ?_⟩
    · intro x hx
      have hxb : x ≠ b := by
        rintro rfl
        exact hx hfind
      rw [hcold', if_neg hxb]
      exact hpart.disjoint x hx
    · intro x entry' hx
      rw [hcold'] at hx
      split at hx
      · obtain rfl := Option.some.inj hx
        exact (bumped_pos (hpart.cold b entry hcold)).le
      · exact hpart.cold x entry' hx

/-- The engine after a decay that comes back. -/
def decayed (avx2 : Bool) (e : FrecencyEngine) : FrecencyEngine :=
  ⟨{ e.hot.incrementTick with
      scores := fun slot =>
        if avx2 = true ∨ e.hot.keys slot ≠ 0 then e.hot.scores slot * DECAY_FACTOR
        else e.hot.scores slot },
    e.cold.mapVal fun _ entry => { entry with score := entry.score * DECAY_FACTOR }, e.tick + 1⟩

/-- A decay comes back but on its vector path over scores that are not aligned. -/
theorem step_batchDecay (avx2 : Bool) (e : FrecencyEngine) :
    e.step avx2 .batchDecay = if avx2 = true → e.hot.scoresPtr % AVX2_ALIGNMENT = 0 then
      some (e.decayed avx2) else none := by
  have hptr : e.hot.incrementTick.scoresPtr = e.hot.scoresPtr := rfl
  cases avx2 with
  | true =>
    simp only [FrecencyEngine.step, batchDecay, if_true, HotSet.batchDecaySimd_eq, hptr, true_imp_iff]
    split
    · simp only [decayed, true_or, if_true]
      rfl
    · rfl
  | false =>
    rw [if_pos (by simp)]
    simp only [FrecencyEngine.step, batchDecay, decayed, Bool.false_eq_true, if_false, false_or]
    rfl

theorem Partitioned.decayed (hpart : Partitioned e) (avx2 : Bool) : Partitioned (e.decayed avx2) := by
  have hcold : ∀ b, (e.decayed avx2).cold.find? b =
      (e.cold.find? b).map fun entry => { entry with score := entry.score * DECAY_FACTOR } :=
    fun b => AMap.find?_mapVal _ _ _
  refine ⟨hpart.ordered.congr rfl rfl rfl ?_, ?_, congrArg (· + 1) hpart.tick, ?_⟩
  · intro slot hpos
    simp only [FrecencyEngine.decayed]
    split
    · exact mul_pos hpos decay_pos
    · exact hpos
  · intro b hb
    rw [hcold, hpart.disjoint b hb]
    rfl
  · intro b entry hb
    rw [hcold, Option.map_eq_some_iff] at hb
    obtain ⟨entry', hentry, rfl⟩ := hb
    exact mul_nonneg (hpart.cold b entry' hentry) decay_pos.le

theorem Partitioned.remove (hpart : Partitioned e) (b : UInt64) : Partitioned (e.remove b) := by
  unfold FrecencyEngine.remove
  split
  · rename_i slot hfind
    obtain ⟨hordered, hfind'⟩ := HotSet.remove_ordered hpart.ordered hfind
    refine ⟨hordered, ?_, hpart.tick, hpart.cold⟩
    intro x hx
    have hx' : (e.hot.remove slot).find x ≠ none := hx
    rw [hfind'] at hx'
    split at hx'
    · exact absurd rfl hx'
    · exact hpart.disjoint x hx'
  · refine ⟨hpart.ordered, ?_, hpart.tick, ?_⟩
    · intro x hx
      rw [AMap.find?_erase, hpart.disjoint x hx]
      split <;> rfl
    · intro x entry hx
      rw [AMap.find?_erase] at hx
      split at hx
      · exact absurd hx (by simp)
      · exact hpart.cold x entry hx

theorem Partitioned.step (hpart : Partitioned e) {event : Event}
    (hstep : e.step avx2 event = some e') : Partitioned e' := by
  cases event with
  | recordAccess b =>
    obtain rfl := Option.some.inj hstep
    exact hpart.recordAccess b
  | batchDecay =>
    rw [step_batchDecay, Option.ite_none_right_eq_some] at hstep
    obtain ⟨-, hstep⟩ := hstep
    obtain rfl := Option.some.inj hstep
    exact hpart.decayed avx2
  | remove b =>
    obtain rfl := Option.some.inj hstep
    exact hpart.remove b

theorem run_cons (event : Event) (events : List Event) :
    run avx2 (event :: events) e = (e.step avx2 event).bind (run avx2 events) := rfl

theorem Partitioned.run (hpart : Partitioned e) {events : List Event}
    (hrun : run avx2 events e = some e') : Partitioned e' := by
  induction events generalizing e with
  | nil =>
    obtain rfl := Option.some.inj hrun
    exact hpart
  | cons event events ih =>
    rw [run_cons, Option.bind_eq_some_iff] at hrun
    obtain ⟨e₁, hstep, hrun⟩ := hrun
    exact ih (hpart.step hstep) hrun

/-! ### Hot, cold and the two decays -/

/-- The partition in the terms of the data: hot and cold blobs are different blobs, slots
and free slots share out the array, keys name their blobs, `len` counts the blobs. -/
structure Partition (e : FrecencyEngine) : Prop where
  disjoint : ∀ b, e.hot.find b = none ∨ e.cold.find? b = none
  injective : ∀ b b' slot, e.hot.find b = some slot → e.hot.find b' = some slot → b = b'
  nodup : e.hot.freeSlots.Nodup
  slots : ∀ slot, slot ∉ e.hot.freeSlots ↔ ∃ b, e.hot.find b = some slot
  key : ∀ b slot, e.hot.find b = some slot → e.hot.keys slot = b
  len : ∃ blobs : List UInt64, blobs.Nodup ∧ (∀ b, b ∈ blobs ↔ e.getScore b ≠ none) ∧
    e.len = blobs.length

theorem mem_keys_iff {V : Type} {m : AMap UInt64 V} {b : UInt64} :
    b ∈ m.entries.map Prod.fst ↔ m.find? b ≠ none := by
  rw [Option.ne_none_iff_exists', List.mem_map]
  constructor
  · rintro ⟨⟨b', v⟩, hmem, rfl⟩
    exact ⟨v, AMap.find?_eq_some_iff.mpr hmem⟩
  · rintro ⟨v, hv⟩
    exact ⟨(b, v), AMap.find?_eq_some_iff.mp hv, rfl⟩

theorem getScore_ne_none_iff : e.getScore b ≠ none ↔ e.hot.find b ≠ none ∨ e.cold.find? b ≠ none := by
  unfold getScore
  cases hfind : e.hot.find b with
  | some slot => simp
  | none => simp

theorem Partitioned.partition (hpart : Partitioned e) : Partition e := by
  have hordered := hpart.ordered
  refine ⟨?_, fun b b' slot => hordered.slot_inj, hordered.nodup, ?_, hordered.key, ?_⟩
  · intro b
    by_cases hhot : e.hot.find b = none
    · exact .inl hhot
    · exact .inr (hpart.disjoint b hhot)
  · intro slot
    rw [hordered.free]
    simp only [not_forall, not_not, ne_eq]
  · refine ⟨e.hot.keyToSlot.entries.map Prod.fst ++ e.cold.entries.map Prod.fst, ?_, ?_, ?_⟩
    · refine e.hot.keyToSlot.nodup.append e.cold.nodup ?_
      intro b hhot hcold
      exact mem_keys_iff.mp hcold (hpart.disjoint b (mem_keys_iff.mp hhot))
    · intro b
      rw [List.mem_append, mem_keys_iff, mem_keys_iff, getScore_ne_none_iff]
      rfl
    · rw [FrecencyEngine.len, hordered.activeCount_eq]
      simp only [List.length_append, List.length_map]

/-- The engine after only its hot set decayed, one way or the other. -/
def withSimd (e : FrecencyEngine) : Option FrecencyEngine :=
  e.hot.batchDecaySimd.map fun hot => { e with hot := hot }

def withScalar (e : FrecencyEngine) : FrecencyEngine := { e with hot := e.hot.batchDecayScalar }

/-- The vector decay comes back, and every tracked blob has the score of the scalar one. -/
def DecaysAgree (e : FrecencyEngine) : Prop :=
  ∃ simd, e.withSimd = some simd ∧
    ∀ b, e.getScore b ≠ none → simd.getScore b = e.withScalar.getScore b

theorem withSimd_eq_some_iff {simd : FrecencyEngine} : e.withSimd = some simd ↔
    e.hot.scoresPtr % AVX2_ALIGNMENT = 0 ∧
      simd = { e with hot := { e.hot with scores := fun slot => e.hot.scores slot * DECAY_FACTOR } } := by
  rw [withSimd, HotSet.batchDecaySimd_eq]
  split
  · rename_i haligned
    simp only [Option.map_some, Option.some.injEq, haligned, true_and]
    exact eq_comm
  · rename_i hodd
    simp only [Option.map_none, hodd, false_and, reduceCtorEq]

/-- The two decays agree on every tracked blob exactly when the scores are aligned and blob 0
is not hot. -/
theorem Partitioned.decays_agree_iff (hpart : Partitioned e) :
    DecaysAgree e ↔ e.hot.scoresPtr % AVX2_ALIGNMENT = 0 ∧ e.hot.find 0 = none := by
  have hscalar : ∀ b slot, e.hot.find b = some slot → e.withScalar.getScore b =
      some (if b ≠ 0 then e.hot.scores slot * DECAY_FACTOR else e.hot.scores slot) := by
    intro b slot hfind
    have hfind' : e.withScalar.hot.find b = some slot := hfind
    rw [getScore, hfind', ← hpart.ordered.key b slot hfind]
    rfl
  simp only [DecaysAgree, withSimd_eq_some_iff, and_assoc, exists_and_left, exists_eq_left]
  refine and_congr_right fun _ => ⟨?_, ?_⟩
  · intro hagree
    by_contra hhot
    obtain ⟨slot, hslot⟩ := Option.ne_none_iff_exists'.mp hhot
    have h := hagree 0 (getScore_ne_none_iff.mpr (.inl hhot))
    have hfind' : HotSet.find { e.hot with scores := fun slot => e.hot.scores slot * DECAY_FACTOR } 0 =
        some slot := hslot
    rw [hscalar 0 slot hslot, if_neg (not_not_intro rfl), getScore, hfind', Option.some.injEq] at h
    exact HotSet.decayed_ne (hpart.ordered.score 0 slot hslot) h
  · intro hzero b _
    have hfind' : HotSet.find { e.hot with scores := fun slot => e.hot.scores slot * DECAY_FACTOR } b =
        e.hot.find b := rfl
    cases hfind : e.hot.find b with
    | some slot =>
      have hb : b ≠ 0 := by
        rintro rfl
        rw [hzero] at hfind
        exact absurd hfind (by simp)
      rw [hscalar b slot hfind, if_pos hb, getScore, hfind', hfind]
      rfl
    | none =>
      have hfind₂ : e.withScalar.hot.find b = none := hfind
      rw [getScore, getScore, hfind', hfind, hfind₂]
      rfl

/-- **Every reachable state is partitioned, and in it the vector and the scalar decay agree
on every tracked blob exactly when the scores are aligned and blob 0 is not hot.** -/
theorem partition_and_decays (avx2 : Bool) (scoresPtr : Nat) (events : List Event) :
    ∀ e ∈ run avx2 events (new scoresPtr), Partition e ∧
      (DecaysAgree e ↔ e.hot.scoresPtr % AVX2_ALIGNMENT = 0 ∧ e.hot.find 0 = none) := by
  intro e hrun
  have hpart := partitioned_new.run hrun
  exact ⟨hpart.partition, hpart.decays_agree_iff⟩

/-- Blob 0, hot and so skipped by the scalar path. -/
theorem partition_and_decays_zero : ∃ e ∈ run false [.recordAccess 0] (new 4096),
    Partition e ∧ (DecaysAgree e ↔ e.hot.scoresPtr % AVX2_ALIGNMENT = 0 ∧ e.hot.find 0 = none) :=
  ⟨_, rfl, partition_and_decays false 4096 [.recordAccess 0] _ rfl⟩

/-- Blob 0 keeps its score on a machine without the instructions. -/
theorem blob_zero_skipped : ∃ e ∈ run false [.recordAccess 0] (new 4096), ¬ DecaysAgree e := by
  refine ⟨_, rfl, fun hagree => ?_⟩
  have hpart : Partitioned ((new 4096).recordAccess 0).1 := partitioned_new.recordAccess 0
  obtain ⟨-, hnone⟩ := hpart.decays_agree_iff.mp hagree
  obtain ⟨hot', slot, hinsert, heq⟩ := recordAccess_fresh
    partitioned_new.ordered (HotSet.find_new 4096 0) rfl freeSlots_ne_nil
  obtain ⟨-, -, hfind⟩ := partitioned_new.insert (HotSet.find_new 4096 0) hinsert
  rw [heq, hfind 0, if_pos rfl] at hnone
  exact absurd hnone (by simp)

/-! ### The score law -/

/-- The events after the last removal of the blob. -/
def sinceRemoval (b : UInt64) (events : List Event) : List Event :=
  (events.reverse.takeWhile (· ≠ .remove b)).reverse

/-- Each access to the blob, decayed once for every `batch_decay` after it. -/
def decayedAccesses (b : UInt64) : List Event → ℚ
  | [] => 0
  | event :: later =>
    (if event = .recordAccess b then DECAY_FACTOR ^ later.count .batchDecay else 0) +
      decayedAccesses b later

/-- The score that the history gives the blob. -/
def scoreOf (events : List Event) (b : UInt64) : ℚ := decayedAccesses b (sinceRemoval b events)

def countOf (events : List Event) (b : UInt64) : Nat :=
  (sinceRemoval b events).count (.recordAccess b)

/-- Every tracked blob has the score and the count of its history, and a blob that is not
tracked has had no access. -/
structure Law (events : List Event) (e : FrecencyEngine) : Prop where
  score : ∀ b score, e.getScore b = some score → score = scoreOf events b
  count : ∀ b count, e.getCount b = some count → count = countOf events b
  untracked : ∀ b, e.getScore b = none → countOf events b = 0

theorem sinceRemoval_snoc (b : UInt64) (events : List Event) (event : Event) :
    sinceRemoval b (events ++ [event]) =
      if event = .remove b then [] else sinceRemoval b events ++ [event] := by
  rw [sinceRemoval, List.reverse_append, List.reverse_singleton, List.singleton_append]
  split
  · rename_i heq
    rw [List.takeWhile_cons_of_neg (by simpa using heq)]
    rfl
  · rename_i hne
    rw [List.takeWhile_cons_of_pos (by simpa using hne), List.reverse_cons]
    rfl

theorem decayedAccesses_snoc (b : UInt64) (events : List Event) (event : Event) :
    decayedAccesses b (events ++ [event]) =
      decayedAccesses b events * (if event = .batchDecay then DECAY_FACTOR else 1) +
        (if event = .recordAccess b then 1 else 0) := by
  induction events with
  | nil => simp [decayedAccesses]
  | cons first events ih =>
    rw [List.cons_append, decayedAccesses, decayedAccesses, ih, List.count_append]
    by_cases hdecay : event = .batchDecay
    · subst hdecay
      split <;> simp [pow_add, add_mul]
    · have hzero : List.count Event.batchDecay [event] = 0 := by
        rw [List.count_singleton]
        simp [hdecay]
      rw [hzero, Nat.add_zero, if_neg hdecay, mul_one, mul_one, add_assoc]

/-! ### What an event does to a history -/

variable {events : List Event} {b' : UInt64}

theorem recordAccess_eq_iff : Event.recordAccess b = .recordAccess b' ↔ b' = b := by
  rw [Event.recordAccess.injEq]
  exact eq_comm

theorem scoreOf_access (events : List Event) (b b' : UInt64) :
    scoreOf (events ++ [.recordAccess b]) b' =
      scoreOf events b' + if b' = b then 1 else 0 := by
  rw [scoreOf, sinceRemoval_snoc, if_neg (by simp), decayedAccesses_snoc, if_neg (by simp), mul_one]
  simp only [recordAccess_eq_iff]
  rfl

theorem countOf_access (events : List Event) (b b' : UInt64) :
    countOf (events ++ [.recordAccess b]) b' = countOf events b' + if b' = b then 1 else 0 := by
  rw [countOf, sinceRemoval_snoc, if_neg (by simp), List.count_append, List.count_singleton]
  simp only [beq_iff_eq, recordAccess_eq_iff]
  rfl

theorem scoreOf_decay (events : List Event) (b : UInt64) :
    scoreOf (events ++ [.batchDecay]) b = scoreOf events b * DECAY_FACTOR := by
  rw [scoreOf, sinceRemoval_snoc, if_neg (by simp), decayedAccesses_snoc, if_pos rfl,
    if_neg (by simp), add_zero]
  rfl

theorem countOf_decay (events : List Event) (b : UInt64) :
    countOf (events ++ [.batchDecay]) b = countOf events b := by
  rw [countOf, sinceRemoval_snoc, if_neg (by simp), List.count_append, List.count_singleton]
  simp [countOf]

theorem of_remove_self (events : List Event) (b : UInt64) :
    scoreOf (events ++ [.remove b]) b = 0 ∧ countOf (events ++ [.remove b]) b = 0 := by
  rw [scoreOf, countOf, sinceRemoval_snoc, if_pos rfl]
  exact ⟨rfl, rfl⟩

theorem of_remove_ne (events : List Event) (hne : b' ≠ b) :
    scoreOf (events ++ [.remove b]) b' = scoreOf events b' ∧
      countOf (events ++ [.remove b]) b' = countOf events b' := by
  have hevent : Event.remove b ≠ .remove b' := by
    rw [ne_eq, Event.remove.injEq]
    exact Ne.symm hne
  rw [scoreOf, countOf, sinceRemoval_snoc, if_neg hevent, decayedAccesses_snoc, if_neg (by simp),
    if_neg (by simp), mul_one, add_zero, List.count_append, List.count_singleton]
  exact ⟨rfl, by simp [countOf]⟩

/-- No access, no score. -/
theorem scoreOf_of_countOf (h : countOf events b = 0) : scoreOf events b = 0 := by
  unfold scoreOf
  unfold countOf at h
  generalize sinceRemoval b events = since at h ⊢
  induction since with
  | nil => rfl
  | cons event since ih =>
    rw [List.count_cons] at h
    have hne : event ≠ .recordAccess b := by
      rintro rfl
      simp at h
    rw [decayedAccesses, if_neg hne, ih (by omega), add_zero]

/-! ### The steps that keep the law -/

/-- The step decays no score twice, forgets no access, skips no blob and does not fault. -/
def Sound (avx2 : Bool) (e : FrecencyEngine) : Event → Prop
  | .recordAccess b =>
    match e.hot.find b with
    | some slot => Int.bmod (e.hot.currentTick - e.hot.lastUpdates slot : Nat) (2 ^ 32) = 0
    | none =>
      match e.cold.find? b with
      | some entry => Int.bmod (e.tick - entry.lastUpdate : Nat) (2 ^ 32) = 0
      | none => e.hot.freeSlots ≠ []
  | .batchDecay => if avx2 then e.hot.scoresPtr % AVX2_ALIGNMENT = 0 else e.hot.find 0 = none
  | .remove _ => True

/-- The law for an engine with no cold blob. -/
theorem law_iff (hcold : ∀ b, e.cold.find? b = none) :
    Law events e ↔ ∀ b, match e.hot.find b with
      | some slot => e.hot.scores slot = scoreOf events b ∧ e.hot.counts slot = countOf events b
      | none => countOf events b = 0 := by
  constructor
  · intro hlaw b
    cases hfind : e.hot.find b with
    | some slot =>
      exact ⟨hlaw.score b _ (by rw [getScore, hfind]; rfl),
        hlaw.count b _ (by rw [getCount, hfind]; rfl)⟩
    | none => exact hlaw.untracked b (by simp only [getScore, hfind, hcold, Option.map_none])
  · intro h
    refine ⟨?_, ?_, ?_⟩
    · intro b score hscore
      have hb := h b
      cases hfind : e.hot.find b with
      | some slot =>
        rw [hfind] at hb
        rw [getScore, hfind] at hscore
        exact (Option.some.inj hscore).symm.trans hb.1
      | none => simp only [getScore, hfind, hcold, Option.map_none, reduceCtorEq] at hscore
    · intro b count hcount
      have hb := h b
      cases hfind : e.hot.find b with
      | some slot =>
        rw [hfind] at hb
        rw [getCount, hfind] at hcount
        exact (Option.some.inj hcount).symm.trans hb.2
      | none => simp only [getCount, hfind, hcold, Option.map_none, reduceCtorEq] at hcount
    · intro b hscore
      have hb := h b
      cases hfind : e.hot.find b with
      | some slot => simp only [getScore, hfind, reduceCtorEq] at hscore
      | none =>
        rw [hfind] at hb
        exact hb

/-- The score of an access in the terms of the score before it. -/
theorem scores_recordAccess (hot : HotSet) (slot slot' : Slot) :
    (hot.recordAccess slot).1.scores slot' =
      if slot' = slot then hot.scores slot * powi (hot.currentTick - hot.lastUpdates slot) + 1
      else hot.scores slot' := by
  simp only [HotSet.recordAccess, lazy_eq, Function.update_apply]

theorem counts_recordAccess (hot : HotSet) (slot slot' : Slot) :
    (hot.recordAccess slot).1.counts slot' =
      if slot' = slot then hot.counts slot + 1 else hot.counts slot' := by
  simp only [HotSet.recordAccess, Function.update_apply]

/-- The age counts as none exactly when the lazy decay leaves a positive score. -/
theorem mul_powi_eq_iff {score : ℚ} (hscore : 0 < score) (missedTicks : Nat) :
    score * powi missedTicks = score ↔ Int.bmod missedTicks (2 ^ 32) = 0 := by
  rw [← powi_eq_one_iff]
  exact mul_eq_left₀ hscore.ne'

theorem law_access_hot (hpart : Partitioned e) (hcold : ∀ b, e.cold.find? b = none)
    (hlaw : Law events e) {slot : Slot} (hfind : e.hot.find b = some slot) :
    Law (events ++ [.recordAccess b]) { e with hot := (e.hot.recordAccess slot).1 } ↔
      Int.bmod (e.hot.currentTick - e.hot.lastUpdates slot : Nat) (2 ^ 32) = 0 := by
  have hbefore := (law_iff hcold).mp hlaw
  have hb := hbefore b
  rw [hfind] at hb
  have hscore := hpart.ordered.score b slot hfind
  rw [law_iff (by exact hcold), ← mul_powi_eq_iff hscore]
  have hsame : ∀ x, HotSet.find (e.hot.recordAccess slot).1 x = e.hot.find x := fun _ => rfl
  simp only [hsame, scores_recordAccess, counts_recordAccess, scoreOf_access, countOf_access]
  constructor
  · intro hafter
    have h := hafter b
    rw [hfind] at h
    simp only [if_true] at h
    have hplus := h.1
    rw [← hb.1] at hplus
    exact add_right_cancel hplus
  · intro hnone x
    have hx := hbefore x
    cases hfindx : e.hot.find x with
    | some slot' =>
      rw [hfindx] at hx
      by_cases hxb : x = b
      · subst hxb
        obtain rfl : slot' = slot := Option.some.inj (hfindx.symm.trans hfind)
        simp only [if_true, hnone]
        exact ⟨by rw [hx.1], by rw [hx.2]⟩
      · have hne := hpart.ordered.slot_ne hxb hfind hfindx
        simp only [if_neg hne, if_neg hxb, add_zero]
        exact hx
    | none =>
      rw [hfindx] at hx
      have hxb : x ≠ b := by
        rintro rfl
        rw [hfind] at hfindx
        exact absurd hfindx (by simp)
      simp only [if_neg hxb, add_zero]
      exact hx

/-- A blob's first access is counted if it gets a slot. -/
theorem law_access_new (hpart : Partitioned e) (hcold : ∀ b, e.cold.find? b = none)
    (hlaw : Law events e) (hfind : e.hot.find b = none) (hfree : e.hot.freeSlots ≠ []) :
    Law (events ++ [.recordAccess b]) (e.recordAccess b).1 ∧
      ∀ x, (e.recordAccess b).1.cold.find? x = none := by
  have hbefore := (law_iff hcold).mp hlaw
  have hb := hbefore b
  rw [hfind] at hb
  obtain ⟨hfull, -⟩ | ⟨hot', slot, hinsert, -, hfind', hscores, hcounts, -, -, hunused⟩ :=
    HotSet.insert_spec hpart.ordered hfind
  · exact absurd hfull hfree
  have heq : (e.recordAccess b).1 = { e with hot := hot' } := by
    simp only [recordAccess, hfind, hcold, hinsert]
  rw [heq]
  refine ⟨(law_iff (by exact hcold)).mpr fun x => ?_, hcold⟩
  rw [show HotSet.find hot' x = if x = b then some slot else e.hot.find x from hfind' x]
  simp only [scoreOf_access, countOf_access, hscores, hcounts]
  by_cases hxb : x = b
  · subst hxb
    simp only [if_true, Function.update_self, scoreOf_of_countOf hb, hb, zero_add, and_self]
  · have hx := hbefore x
    simp only [if_neg hxb, add_zero]
    cases hfindx : e.hot.find x with
    | some slot' =>
      rw [hfindx] at hx
      have hne : slot' ≠ slot := by
        rintro rfl
        exact hunused x hfindx
      simp only [Function.update_of_ne hne]
      exact hx
    | none =>
      rw [hfindx] at hx
      exact hx

/-- Without a free slot the first access leaves a count of 0. -/
theorem not_law_access_full (hcold : ∀ b, e.cold.find? b = none)
    (hfind : e.hot.find b = none) (hfull : e.hot.freeSlots = []) :
    ¬ Law (events ++ [.recordAccess b]) (e.recordAccess b).1 := by
  intro hlaw
  have hinsert : e.hot.insert b = (e.hot, none) := by
    simp only [HotSet.insert, hfind, hfull]
  have heq : (e.recordAccess b).1 = { e with cold := e.cold.insertOrAssign b ColdEntry.new } := by
    simp only [recordAccess, hfind, hcold, hinsert]
  have hcount : (e.recordAccess b).1.getCount b = some 0 := by
    rw [heq]
    simp only [getCount, hfind, AMap.find?_insertOrAssign_self, Option.map_some, ColdEntry.new]
  have hzero := hlaw.count b 0 hcount
  rw [countOf_access, if_pos rfl] at hzero
  omega

/-- A decay that comes back keeps the law if it reaches every hot blob. -/
theorem law_decayed (avx2 : Bool) (hpart : Partitioned e) (hcold : ∀ b, e.cold.find? b = none)
    (hlaw : Law events e) :
    (Law (events ++ [.batchDecay]) (e.decayed avx2) ↔ avx2 = true ∨ e.hot.find 0 = none) ∧
      ∀ x, (e.decayed avx2).cold.find? x = none := by
  have hcold' : ∀ x, (e.decayed avx2).cold.find? x = none := by
    intro x
    simp only [decayed, AMap.find?_mapVal, hcold, Option.map_none]
  have hbefore := (law_iff hcold).mp hlaw
  have hfind : ∀ x, (e.decayed avx2).hot.find x = e.hot.find x := fun _ => rfl
  refine ⟨?_, hcold'⟩
  rw [law_iff hcold']
  simp only [hfind, scoreOf_decay, countOf_decay]
  constructor
  · intro hafter
    by_contra hnot
    rw [not_or] at hnot
    obtain ⟨slot, hslot⟩ := Option.ne_none_iff_exists'.mp hnot.2
    have h := hafter 0
    have h₀ := hbefore 0
    rw [hslot] at h h₀
    have hkey : ¬ (avx2 = true ∨ e.hot.keys slot ≠ 0) := by
      rw [hpart.ordered.key 0 slot hslot]
      exact fun hor => hor.elim hnot.1 fun hne => hne rfl
    simp only [decayed, if_neg hkey] at h
    rw [← h₀.1] at h
    exact HotSet.decayed_ne (hpart.ordered.score 0 slot hslot) h.1.symm
  · intro hreach x
    have hx := hbefore x
    cases hfindx : e.hot.find x with
    | some slot =>
      rw [hfindx] at hx
      have hkey : avx2 = true ∨ e.hot.keys slot ≠ 0 := by
        refine hreach.imp_right fun hzero => ?_
        rw [hpart.ordered.key x slot hfindx]
        rintro rfl
        rw [hzero] at hfindx
        exact absurd hfindx (by simp)
      simp only [decayed, if_pos hkey, hx.1]
      exact ⟨trivial, hx.2⟩
    | none =>
      rw [hfindx] at hx
      exact hx

theorem law_remove (hpart : Partitioned e) (hcold : ∀ b, e.cold.find? b = none)
    (hlaw : Law events e) :
    Law (events ++ [.remove b]) (e.remove b) ∧ ∀ x, (e.remove b).cold.find? x = none := by
  have hbefore := (law_iff hcold).mp hlaw
  have hother : ∀ x, x ≠ b → ∀ {hot : HotSet}, hot.find x = e.hot.find x →
      (∀ slot, e.hot.find x = some slot →
        hot.scores slot = e.hot.scores slot ∧ hot.counts slot = e.hot.counts slot) →
      match hot.find x with
      | some slot => hot.scores slot = scoreOf (events ++ [.remove b]) x ∧
          hot.counts slot = countOf (events ++ [.remove b]) x
      | none => countOf (events ++ [.remove b]) x = 0 := by
    intro x hxb hot hsame hvalues
    obtain ⟨hscore, hcount⟩ := of_remove_ne events hxb
    have hx := hbefore x
    rw [hsame, hscore, hcount]
    cases hfindx : e.hot.find x with
    | some slot =>
      rw [hfindx] at hx
      obtain ⟨hs, hc⟩ := hvalues slot hfindx
      simp only [hs, hc]
      exact hx
    | none =>
      rw [hfindx] at hx
      exact hx
  obtain ⟨-, hself⟩ := of_remove_self events b
  cases hfind : e.hot.find b with
  | some slot =>
    obtain ⟨-, hfind'⟩ := HotSet.remove_ordered hpart.ordered hfind
    have heq : e.remove b = { e with hot := e.hot.remove slot } := by
      rw [FrecencyEngine.remove, hfind]
    rw [heq]
    refine ⟨(law_iff (by exact hcold)).mpr fun x => ?_, hcold⟩
    by_cases hxb : x = b
    · rw [show HotSet.find (e.hot.remove slot) x = none by rw [hfind', if_pos hxb], hxb]
      exact hself
    · refine hother x hxb (by rw [hfind', if_neg hxb]) fun slot' hslot' => ?_
      have hne := hpart.ordered.slot_ne hxb hfind hslot'
      simp only [HotSet.remove, Function.update_of_ne hne, and_self]
  | none =>
    have heq : e.remove b = { e with cold := e.cold.erase b } := by
      rw [FrecencyEngine.remove, hfind]
    have hcold' : ∀ x, (e.cold.erase b).find? x = none := by
      intro x
      rw [AMap.find?_erase, hcold]
      split <;> rfl
    rw [heq]
    refine ⟨(law_iff hcold').mpr fun x => ?_, hcold'⟩
    by_cases hxb : x = b
    · rw [show e.hot.find x = none by rw [hxb, hfind], hxb]
      exact hself
    · exact hother x hxb rfl fun _ _ => ⟨rfl, rfl⟩

/-- A step that cannot fault, in terms of the state it leaves. -/
theorem exists_step_iff {event : Event} {after : FrecencyEngine}
    (hstep : e.step avx2 event = some after) (P : FrecencyEngine → Prop) :
    (∃ e', e.step avx2 event = some e' ∧ P e') ↔ P after := by
  simp only [hstep, Option.some.injEq, exists_eq_left']

/-- While no blob is cold, a step comes back with the law kept exactly if it is sound. -/
theorem law_step_iff (avx2 : Bool) (hpart : Partitioned e) (hcold : ∀ b, e.cold.find? b = none)
    (hlaw : Law events e) (event : Event) :
    ((∃ e', e.step avx2 event = some e' ∧ Law (events ++ [event]) e') ↔ Sound avx2 e event) ∧
      (Sound avx2 e event → ∀ e' ∈ e.step avx2 event, ∀ b, e'.cold.find? b = none) := by
  cases event with
  | recordAccess b =>
    cases hfind : e.hot.find b with
    | some slot =>
      have heq : e.step avx2 (.recordAccess b) =
          some { e with hot := (e.hot.recordAccess slot).1 } := by
        simp only [FrecencyEngine.step, recordAccess, hfind]
      rw [exists_step_iff heq, heq]
      refine ⟨?_, fun _ e' he' => by rwa [← Option.some.inj he']⟩
      simp only [Sound, hfind]
      exact law_access_hot hpart hcold hlaw hfind
    | none =>
      have heq : e.step avx2 (.recordAccess b) = some (e.recordAccess b).1 := rfl
      rw [exists_step_iff heq, heq]
      simp only [Sound, hfind, hcold]
      by_cases hfree : e.hot.freeSlots = []
      · exact ⟨iff_of_false (not_law_access_full hcold hfind hfree) (not_not_intro hfree),
          fun hne => absurd hfree hne⟩
      · obtain ⟨hlaw', hcold'⟩ := law_access_new hpart hcold hlaw hfind hfree
        exact ⟨iff_of_true hlaw' hfree, fun _ e' he' => by rwa [← Option.some.inj he']⟩
  | batchDecay =>
    obtain ⟨hiff, hcold'⟩ := law_decayed avx2 hpart hcold hlaw
    simp only [step_batchDecay, Option.ite_none_right_eq_some, Option.mem_def, Option.some.injEq]
    refine ⟨?_, fun _ e' he' => by rwa [← he'.2]⟩
    simp only [and_assoc, exists_and_left, exists_eq_left', hiff, Sound]
    cases avx2 <;> simp
  | remove b =>
    have heq : e.step avx2 (.remove b) = some (e.remove b) := rfl
    obtain ⟨hlaw', hcold'⟩ := law_remove (b := b) hpart hcold hlaw
    rw [exists_step_iff heq, heq]
    exact ⟨iff_of_true hlaw' trivial, fun _ e' he' => by rwa [← Option.some.inj he']⟩

/-! ### Runs -/

/-- Every step of the run is sound in the state it finds. -/
def SoundRun (avx2 : Bool) : List Event → FrecencyEngine → Prop
  | [], _ => True
  | event :: events, e => Sound avx2 e event ∧ ∀ e' ∈ e.step avx2 event, SoundRun avx2 events e'

theorem law_run_iff (avx2 : Bool) {done : List Event} (events : List Event)
    (hpart : Partitioned e) (hcold : ∀ b, e.cold.find? b = none) (hlaw : Law done e) :
    (∀ now later, events = now ++ later → ∃ e', run avx2 now e = some e' ∧ Law (done ++ now) e') ↔
      SoundRun avx2 events e := by
  induction events generalizing e done with
  | nil =>
    refine iff_of_true ?_ trivial
    intro now later hsplit
    obtain ⟨rfl, -⟩ := List.append_eq_nil_iff.mp hsplit.symm
    exact ⟨e, rfl, by rwa [List.append_nil]⟩
  | cons event events ih =>
    obtain ⟨hiff, hkeep⟩ := law_step_iff avx2 hpart hcold hlaw event
    constructor
    · intro hall
      obtain ⟨e₁, hrun, hfirst⟩ := hall [event] events rfl
      rw [run_cons, Option.bind_eq_some_iff] at hrun
      obtain ⟨_, hstep, hnil⟩ := hrun
      obtain rfl := Option.some.inj hnil
      have hsound := hiff.mp ⟨_, hstep, hfirst⟩
      refine ⟨hsound, fun e' he' => ?_⟩
      obtain rfl := Option.some.inj (hstep.symm.trans he')
      refine (ih (hpart.step hstep) (hkeep hsound _ hstep) hfirst).mp ?_
      rintro now later rfl
      have h := hall (event :: now) later rfl
      rwa [run_cons, hstep, Option.bind_some, List.append_cons] at h
    · rintro ⟨hsound, hrest⟩ now later hsplit
      obtain ⟨e₁, hstep, hfirst⟩ := hiff.mpr hsound
      cases now with
      | nil => exact ⟨e, rfl, by rwa [List.append_nil]⟩
      | cons event' now =>
        rw [List.cons_append, List.cons.injEq] at hsplit
        obtain ⟨rfl, hsplit⟩ := hsplit
        rw [run_cons, hstep, Option.bind_some, List.append_cons]
        exact (ih (hpart.step hstep) (hkeep hsound _ hstep) hfirst).mpr (hrest _ hstep) now later
          hsplit

theorem law_new : Law [] (new scoresPtr) :=
  (law_iff fun _ => rfl).mpr fun b => by
    rw [show (new scoresPtr).hot.find b = none from HotSet.find_new scoresPtr b]
    rfl

/-- **A run comes back with the score law in every state exactly when every step of it is
sound**: no age of an access counts twice, no first access finds the hot set full, no scalar
decay finds blob 0, and no vector decay finds its scores unaligned. -/
theorem law_everywhere_iff (avx2 : Bool) (scoresPtr : Nat) (events : List Event) :
    (∀ now later, events = now ++ later →
        ∃ e, run avx2 now (new scoresPtr) = some e ∧ Law now e) ↔
      SoundRun avx2 events (new scoresPtr) := by
  have h := law_run_iff avx2 events partitioned_new (fun _ => rfl) (@law_new scoresPtr)
  simpa only [List.nil_append] using h

/-- One decay after its first access, a blob's age is 1. -/
theorem not_sound_after_decay (hpart : Partitioned e) (hfind : e.hot.find b = none)
    (hcold : e.cold.find? b = none) (hfree : e.hot.freeSlots ≠ []) :
    ¬ Sound avx2 ((e.recordAccess b).1.decayed avx2) (.recordAccess b) := by
  obtain ⟨hfull, -⟩ | ⟨hot', slot, hinsert, -, hfind', -, -, hlast, htick, -⟩ :=
    HotSet.insert_spec hpart.ordered hfind
  · exact absurd hfull hfree
  have hfirst : (e.recordAccess b).1 = { e with hot := hot' } := by
    simp only [recordAccess, hfind, hcold, hinsert]
  have hdecayed : (decayed avx2 { e with hot := hot' }).hot.find b = some slot :=
    (hfind' b).trans (if_pos rfl)
  have hnow : (decayed avx2 { e with hot := hot' }).hot.currentTick = e.hot.currentTick + 1 :=
    congrArg (· + 1) htick
  have hthen : (decayed avx2 { e with hot := hot' }).hot.lastUpdates slot = e.hot.currentTick := by
    rw [show (decayed avx2 { e with hot := hot' }).hot.lastUpdates = hot'.lastUpdates from rfl, hlast,
      Function.update_self]
  rw [hfirst]
  simp only [Sound, hdecayed, hnow, hthen, Nat.add_sub_cancel_left]
  decide

/-- A new blob that is hit again after a decay pays for the decay twice. -/
theorem not_law_second_access (hpart : Partitioned e) (hcold : ∀ b, e.cold.find? b = none)
    (hlaw : Law [] e) (hfind : ∀ b, e.hot.find b = none) (hfree : e.hot.freeSlots ≠ []) (hb : b ≠ 0) :
    ∃ e', run false [.recordAccess b, .batchDecay, .recordAccess b] e = some e' ∧
      ¬ Law [.recordAccess b, .batchDecay, .recordAccess b] e' := by
  have hpart₁ := hpart.recordAccess b
  obtain ⟨hlaw₁, hcold₁⟩ := law_access_new hpart hcold hlaw (hfind b) hfree
  obtain ⟨hot', slot, hinsert, heq⟩ := recordAccess_fresh hpart.ordered (hfind b) (hcold b) hfree
  have hzero : (e.recordAccess b).1.hot.find 0 = none := by
    obtain ⟨-, -, hfind'⟩ := hpart.insert (hfind b) hinsert
    rw [heq]
    exact (hfind' 0).trans ((if_neg hb.symm).trans (hfind 0))
  have hdecay : (e.recordAccess b).1.step false .batchDecay =
      some ((e.recordAccess b).1.decayed false) := by
    rw [step_batchDecay, if_pos (by simp)]
  obtain ⟨hiff, hcold₂⟩ := law_decayed false hpart₁ hcold₁ hlaw₁
  have hiff₃ := (law_step_iff false (hpart₁.decayed false) hcold₂ (hiff.mpr (.inr hzero))
    (.recordAccess b)).1
  rw [exists_step_iff rfl] at hiff₃
  refine ⟨(((e.recordAccess b).1.decayed false).recordAccess b).1, ?_, fun hlaw₃ =>
    not_sound_after_decay hpart (hfind b) (hcold b) hfree (hiff₃.mp hlaw₃)⟩
  rw [run_cons, FrecencyEngine.step, Option.bind_some, run_cons, hdecay]
  rfl

theorem second_access_decays_twice :
    ∃ e, run false [.recordAccess 5, .batchDecay, .recordAccess 5] (new 4096) = some e ∧
      ¬ Law [.recordAccess 5, .batchDecay, .recordAccess 5] e :=
  not_law_second_access partitioned_new (fun _ => rfl) law_new (HotSet.find_new 4096)
    freeSlots_ne_nil (by decide)

end FrecencyEngine

end Frecency

end IowarpCore
