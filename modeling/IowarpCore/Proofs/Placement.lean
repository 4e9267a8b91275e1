/-
The order in which placement tries the targets.

All three engines answer with the targets that have room for the data, those at or below
the blob's score first.  Inside a group the order is any, the input's from the counter on,
or by performance.  `std::sort` wants a strict weak order of what it compares: a figure that
is not a number is before nothing and after nothing, and stays between targets which are
then not compared (`sort_stops_at_nan`).
-/
import Mathlib.Data.List.Rotate
import IowarpCore.Proofs.Awaits
import IowarpCore.Proofs.Tasks

namespace IowarpCore
namespace Cte

open Bdev (Request Reply Devices)
open Co

variable {S : Request → Devices → Reply → Devices → Prop} {w w' : World Container Devices}

/-- The targets with room at or below the blob's score. -/
def preferred (targets : List TargetInfo) (blobScore : F32) (dataSize : UInt64) :
    List TargetInfo :=
  targets.filter fun t => t.remainingSpace ≥ dataSize && t.targetScore.le blobScore

/-- The other targets with room. -/
def fallback (targets : List TargetInfo) (blobScore : F32) (dataSize : UInt64) :
    List TargetInfo :=
  targets.filter fun t => t.remainingSpace ≥ dataSize && !t.targetScore.le blobScore

/-- What a target is judged by: its bandwidth for large data, its average latency for small. -/
def figure (dataSize : UInt64) (t : TargetInfo) : F64 :=
  if dataSize ≥ kLatencyThreshold then t.perfMetrics.writeBandwidthMbps
  else (t.perfMetrics.readLatencyUs.add t.perfMetrics.writeLatencyUs).half

/-- The figures of a group are numbers. -/
def Rated (dataSize : UInt64) (group : List TargetInfo) : Prop :=
  ∀ t ∈ group, (figure dataSize t).isNaN = false

/-- What an engine makes of a group.  `before` is its order by performance. -/
def Arranges (dpeType : DpeType) (counter : UInt32) (dataSize : UInt64)
    (before : TargetInfo → TargetInfo → Bool) (group arranged : List TargetInfo) : Prop :=
  match dpeType with
  | .random => arranged.Perm group
  | .roundRobin => arranged = group.rotate counter.toNat
  | .maxBw => arranged.Perm group ∧
      (Rated dataSize group → arranged.Pairwise fun a b => before b a = false)

/-! ### Sorting -/

/-- A sort is one if the order is total and transitive on the list. -/
theorem pairwise_mergeSort_of_mem {α : Type} {le : α → α → Bool} {l : List α}
    (htrans : ∀ a ∈ l, ∀ b ∈ l, ∀ c ∈ l, le a b = true → le b c = true → le a c = true)
    (htotal : ∀ a ∈ l, ∀ b ∈ l, (le a b || le b a) = true) :
    (l.mergeSort le).Pairwise fun a b => le a b = true := by
  have hsub : (l.attach.mergeSort fun a b => le a.1 b.1).Pairwise fun a b => le a.1 b.1 = true :=
    List.pairwise_mergeSort (fun a b c => htrans a.1 a.2 b.1 b.2 c.1 c.2)
      (fun a b => htotal a.1 a.2 b.1 b.2) l.attach
  have hmap : (l.attach.mergeSort fun a b => le a.1 b.1).map Subtype.val = l.mergeSort le := by
    rw [List.map_mergeSort (s := le) fun _ _ _ _ => rfl, List.attach_map_subtype_val]
  rw [← hmap, List.pairwise_map]
  exact hsub

/-- The order by performance is that of the figures, up or down. -/
theorem perfBefore_eq (dataSize : UInt64) (a b : TargetInfo) :
    perfBefore dataSize a b =
      if dataSize ≥ kLatencyThreshold then (figure dataSize b).lt (figure dataSize a)
      else (figure dataSize a).lt (figure dataSize b) := by
  unfold perfBefore figure
  by_cases hsize : dataSize ≥ kLatencyThreshold
  · simp only [if_pos hsize]
  · simp only [if_neg hsize]

/-- Targets with numbers are ordered by an integer. -/
theorem perfBefore_of_rated (dataSize : UInt64) : ∃ key : TargetInfo → Int, ∀ a b,
    (figure dataSize a).isNaN = false → (figure dataSize b).isNaN = false →
      perfBefore dataSize a b = decide (key a < key b) := by
  by_cases hsize : dataSize ≥ kLatencyThreshold
  · refine ⟨fun t => -FloatFormat.double.scaled (figure dataSize t).bits.toNat, ?_⟩
    intro a b ha hb
    rw [perfBefore_eq, if_pos hsize, F64.lt, FloatFormat.lt_eq_of_numbers _ hb ha]
    exact decide_eq_decide.mpr neg_lt_neg_iff.symm
  · refine ⟨fun t => FloatFormat.double.scaled (figure dataSize t).bits.toNat, ?_⟩
    intro a b ha hb
    rw [perfBefore_eq, if_neg hsize, F64.lt, FloatFormat.lt_eq_of_numbers _ ha hb]

/-- A group whose figures are numbers is sorted, one way or the other. -/
theorem sorted_of_key {before : TargetInfo → TargetInfo → Bool} {key : TargetInfo → Int}
    {group : List TargetInfo}
    (hkey : ∀ a ∈ group, ∀ b ∈ group, before a b = decide (key a < key b)) :
    (group.mergeSort fun a b => !before b a).Pairwise fun a b => before b a = false := by
  refine (pairwise_mergeSort_of_mem ?_ ?_).imp fun h => by simpa using h
  · intro a ha b hb c hc hab hbc
    rw [hkey b hb a ha, Bool.not_eq_true', decide_eq_false_iff_not] at hab
    rw [hkey c hc b hb, Bool.not_eq_true', decide_eq_false_iff_not] at hbc
    rw [hkey c hc a ha, Bool.not_eq_true', decide_eq_false_iff_not]
    omega
  · intro a ha b hb
    rw [hkey b hb a ha, hkey a ha b hb, Bool.or_eq_true, Bool.not_eq_true', Bool.not_eq_true',
      decide_eq_false_iff_not, decide_eq_false_iff_not]
    omega

theorem arranges_sortTargets {before : TargetInfo → TargetInfo → Bool} {dataSize : UInt64}
    {counter : UInt32} {group arranged : List TargetInfo}
    (hbefore : ∃ key : TargetInfo → Int, ∀ a b, (figure dataSize a).isNaN = false →
      (figure dataSize b).isNaN = false → before a b = decide (key a < key b))
    (h : Runs S (sortTargets before group) w arranged w') :
    Arranges .maxBw counter dataSize before group arranged := by
  refine ⟨(runs_sortTargets h).1, fun hrated => ?_⟩
  simp only [sortTargets, bind_eq, pure_eq, runs_bind, runs_ret] at h
  obtain ⟨shuffled, _, hshuffle, harranged, _⟩ := h
  obtain ⟨hperm, _⟩ := runs_shuffle hshuffle
  obtain ⟨key, hkey⟩ := hbefore
  rw [harranged]
  have hon : ∀ a ∈ shuffled, ∀ b ∈ shuffled, before a b = decide (key a < key b) :=
    fun a ha b hb => hkey a b (hrated a (hperm.mem_iff.mp ha)) (hrated b (hperm.mem_iff.mp hb))
  exact sorted_of_key hon

/-! ### The engines -/

theorem partitionTargets_eq (targets : List TargetInfo) (blobScore : F32) (dataSize : UInt64) :
    partitionTargets targets blobScore dataSize =
      (preferred targets blobScore dataSize, fallback targets blobScore dataSize) := by
  rw [partitionTargets, List.partition_eq_filter_filter, List.filter_filter, List.filter_filter]
  refine Prod.ext ?_ ?_
  · exact List.filter_congr fun t _ => Bool.and_comm _ _
  · exact List.filter_congr fun t _ => Bool.and_comm _ _

theorem rotateBy_eq_rotate (counter : UInt32) (group : List TargetInfo) :
    rotateBy counter group = group.rotate counter.toNat := by
  simp only [rotateBy, List.rotateLeft, List.rotate, List.splitAt_eq, Nat.mod_mod]
  by_cases hlen : group.length ≤ 1
  · rw [if_pos hlen]
    have hmod : counter.toNat % group.length = 0 ∨ group.length = 0 := by
      by_cases hzero : group.length = 0
      · exact Or.inr hzero
      · have hone : group.length = 1 := by omega
        exact Or.inl (by rw [hone, Nat.mod_one])
    rcases hmod with hmod | hnil
    · rw [hmod]
      simp
    · rw [List.length_eq_zero_iff.mp hnil]
      simp
  · rw [if_neg hlen]

/-- What an engine answers: the preferred group and behind it the fallback, each arranged
its way; the performance of the fallback counts backwards. -/
theorem runs_selectTargets_order {cfg : Config} {targets sel : List TargetInfo} {blobScore : F32}
    {dataSize : UInt64} (h : Runs S (selectTargets cfg targets blobScore dataSize) w sel w') :
    ∃ low high, sel = low ++ high ∧
      Arranges cfg.dpeType w.c.roundRobinCounter dataSize (perfBefore dataSize)
        (preferred targets blobScore dataSize) low ∧
      Arranges cfg.dpeType w.c.roundRobinCounter dataSize (fun a b => perfBefore dataSize b a)
        (fallback targets blobScore dataSize) high := by
  unfold selectTargets at h
  cases hdpe : cfg.dpeType with
  | random =>
    rw [hdpe] at h
    simp only [selectRandom, partitionTargets_eq, bind_eq, pure_eq, runs_bind, runs_ret] at h
    obtain ⟨low, w₁, hlow, high, w₂, hhigh, hsel, _⟩ := h
    exact ⟨low, high, hsel, (runs_shuffle hlow).1, (runs_shuffle hhigh).1⟩
  | roundRobin =>
    rw [hdpe] at h
    simp only [selectRoundRobin, partitionTargets_eq] at h
    by_cases hempty : targets.isEmpty = true
    · rw [if_pos hempty] at h
      obtain ⟨hsel, _⟩ := h
      rw [hsel, List.isEmpty_iff.mp hempty]
      exact ⟨[], [], rfl, (List.rotate_nil _).symm, (List.rotate_nil _).symm⟩
    · rw [if_neg hempty] at h
      simp only [bind_eq, pure_eq, runs_bind, runs_ret, TaskResume.readContainer, runs_read,
        TaskResume.modifyContainer, runs_modify] at h
      obtain ⟨c, w₁, ⟨hc, _⟩, _, w₂, _, hsel, _⟩ := h
      rw [hc] at hsel
      exact ⟨_, _, hsel, rotateBy_eq_rotate _ _, rotateBy_eq_rotate _ _⟩
  | maxBw =>
    rw [hdpe] at h
    simp only [selectMaxBw, partitionTargets_eq, bind_eq, pure_eq, runs_bind, runs_ret] at h
    obtain ⟨low, w₁, hlow, high, w₂, hhigh, hsel, _⟩ := h
    refine ⟨low, high, hsel, arranges_sortTargets (perfBefore_of_rated dataSize) hlow,
      arranges_sortTargets ?_ hhigh⟩
    obtain ⟨key, hkey⟩ := perfBefore_of_rated dataSize
    refine ⟨fun t => -key t, fun a b ha hb => ?_⟩
    rw [hkey b a hb ha]
    exact decide_eq_decide.mpr neg_lt_neg_iff.symm

/--
**Placement order.**  Every engine answers, and its answer is a permutation of the targets
with room: those of a score not above the blob's, and behind them the others.  Round robin
rotates both groups by the counter.  By performance the preferred group is sorted the best
first and the fallback the worst first, where the figures are numbers.
-/
theorem placement_order (S : Request → Devices → Reply → Devices → Prop) (cfg : Config)
    (targets : List TargetInfo) (blobScore : F32) (dataSize : UInt64)
    (w : World Container Devices) :
    (∃ sel w', Runs S (selectTargets cfg targets blobScore dataSize) w sel w') ∧
    ∀ sel w', Runs S (selectTargets cfg targets blobScore dataSize) w sel w' →
      sel.Perm (targets.filter fun t => t.remainingSpace ≥ dataSize) ∧
      ∃ low high, sel = low ++ high ∧
        Arranges cfg.dpeType w.c.roundRobinCounter dataSize (perfBefore dataSize)
          (preferred targets blobScore dataSize) low ∧
        Arranges cfg.dpeType w.c.roundRobinCounter dataSize (fun a b => perfBefore dataSize b a)
          (fallback targets blobScore dataSize) high :=
  ⟨exists_run_of_quiet (quiet_selectTargets cfg targets blobScore dataSize) w,
    fun _ _ h => ⟨(runs_selectTargets_perm h).1, runs_selectTargets_order h⟩⟩

/-- A target with room for 64 kilobytes and a bandwidth, by its bits. -/
def rated (bandwidth : UInt64) : TargetInfo :=
  ⟨ramPool, default, F32.zero, 65536, ⟨⟨bandwidth⟩, ⟨0⟩, ⟨0⟩⟩, .volatile⟩

/-- The last value of the counter turns two targets round. -/
theorem placement_order_rotated : ∃ sel w',
    Runs (Serves Devices.serve) (selectTargets { smallConfig with dpeType := .roundRobin }
        [rated 1, rated 2] F32.zero 1)
      ⟨{ smallEngine.c with roundRobinCounter := 4294967295 }, smallRam⟩ sel w' ∧
    sel = [rated 2, rated 1] := by
  obtain ⟨⟨sel, w', hrun⟩, hsel⟩ := placement_order (Serves Devices.serve)
    { smallConfig with dpeType := .roundRobin } [rated 1, rated 2] F32.zero 1
    ⟨{ smallEngine.c with roundRobinCounter := 4294967295 }, smallRam⟩
  obtain ⟨_, low, high, happend, hlow, hhigh⟩ := hsel sel w' hrun
  refine ⟨sel, w', hrun, ?_⟩
  rw [happend, show low = _ from hlow, show high = _ from hhigh]
  decide +kernel

/-- Bandwidths of 9, 3, no number and 5, in this order: the sort compares neither 9 nor 3
with 5. -/
def unrated : List TargetInfo :=
  [rated 0x4022000000000000, rated 0x4008000000000000, rated 0x7ff8000000000000,
    rated 0x4014000000000000]

theorem sort_stops_at_nan :
    ¬∀ (S : Request → Devices → Reply → Devices → Prop) (cfg : Config)
        (targets : List TargetInfo) (blobScore : F32) (dataSize : UInt64)
        (w : World Container Devices) (sel : List TargetInfo) (w' : World Container Devices),
      cfg.dpeType = .maxBw → Runs S (selectTargets cfg targets blobScore dataSize) w sel w' →
      ∃ low high, sel = low ++ high ∧
        low.Perm (preferred targets blobScore dataSize) ∧
        low.Pairwise (fun a b => perfBefore dataSize b a = false) ∧
        high.Perm (fallback targets blobScore dataSize) ∧
        high.Pairwise (fun a b => perfBefore dataSize a b = false) := by
  intro h
  have hsort : unrated.mergeSort (fun a b => !perfBefore 65536 b a) = unrated := by
    have h₁ : perfBefore 65536 (rated 0x4008000000000000) (rated 0x4022000000000000) = false := by
      decide +kernel
    have h₂ : perfBefore 65536 (rated 0x4014000000000000) (rated 0x7ff8000000000000) = false := by
      decide +kernel
    have h₃ : perfBefore 65536 (rated 0x7ff8000000000000) (rated 0x4022000000000000) = false := by
      decide +kernel
    have h₄ : perfBefore 65536 (rated 0x7ff8000000000000) (rated 0x4008000000000000) = false := by
      decide +kernel
    simp [unrated, List.mergeSort, List.MergeSort.Internal.splitInTwo, h₁, h₂, h₃, h₄]
  have hpreferred : preferred unrated F32.zero 65536 = unrated := by decide +kernel
  have hfallback : fallback unrated F32.zero 65536 = [] := by decide +kernel
  have hrun : Runs (Serves Devices.serve)
      (selectTargets { smallConfig with dpeType := .maxBw } unrated F32.zero 65536)
      smallEngine unrated smallEngine := by
    simp only [selectTargets, selectMaxBw, partitionTargets_eq, hpreferred, hfallback, sortTargets,
      bind_eq, pure_eq, runs_bind, runs_ret]
    exact ⟨unrated, smallEngine, ⟨unrated, smallEngine, runs_shuffle_self _, hsort.symm, rfl⟩,
      [], smallEngine, ⟨[], smallEngine, runs_shuffle_self _, by simp, rfl⟩, by simp, rfl⟩
  obtain ⟨low, high, hsel, _, hsorted, hhigh, _⟩ := h _ _ _ _ _ _ _ _ rfl hrun
  rw [hfallback, List.perm_nil] at hhigh
  rw [hhigh, List.append_nil] at hsel
  rw [← hsel] at hsorted
  revert hsorted
  decide +kernel

end Cte
end IowarpCore
