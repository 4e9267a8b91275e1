/-
The first of the least elements of a list.

A scan keeps the best element so far and replaces it by one that costs less.  With a bound
to start from, it ends with the first element of least cost, or with none if no element
costs less than the bound.
-/
import Mathlib.Order.Lattice
import Mathlib.Data.List.Induction

namespace IowarpCore

variable {α γ : Type} [LinearOrder γ]

/-- The element and its cost, or the bound. -/
def firstLeast (cost : α → γ) (bound : γ) (l : List α) : Option α × γ :=
  l.foldl (fun best a => if cost a < best.2 then (some a, cost a) else best) (none, bound)

/-- An element that costs less than those before it and no more than those behind. -/
structure FirstLeast (cost : α → γ) (bound : γ) (l : List α) (a : α) : Prop where
  below : cost a < bound
  split : ∃ before after, l = before ++ a :: after ∧ (∀ b ∈ before, cost a < cost b) ∧
    ∀ b ∈ after, cost a ≤ cost b

variable {cost : α → γ} {bound : γ} {l : List α} {a : α}

theorem FirstLeast.mem (h : FirstLeast cost bound l a) : a ∈ l := by
  obtain ⟨before, after, rfl, -⟩ := h.split
  simp

theorem FirstLeast.le (h : FirstLeast cost bound l a) {b : α} (hb : b ∈ l) : cost a ≤ cost b := by
  obtain ⟨before, after, rfl, hbefore, hafter⟩ := h.split
  obtain hfront | hrest := List.mem_append.mp hb
  · exact le_of_lt (hbefore b hfront)
  · obtain rfl | hbehind := List.mem_cons.mp hrest
    · exact le_refl _
    · exact hafter b hbehind

/-- There is only one. -/
theorem FirstLeast.unique {b : α} (ha : FirstLeast cost bound l a)
    (hb : FirstLeast cost bound l b) : a = b := by
  obtain ⟨front, behind, hl, hfront, -⟩ := ha.split
  obtain ⟨front', behind', hl', hfront', -⟩ := hb.split
  -- Of two places the later one has the other element before it, at a greater cost.
  obtain ⟨c, hc, hrest⟩ | ⟨c, hc, hrest⟩ := List.append_eq_append_iff.mp (hl.symm.trans hl')
  · cases c with
    | nil => exact (List.cons.inj hrest).1
    | cons d c =>
      obtain ⟨rfl, -⟩ := List.cons.inj hrest
      exact absurd (hfront' a (by simp [hc])) (not_lt.mpr (ha.le hb.mem))
  · cases c with
    | nil => exact (List.cons.inj hrest).1.symm
    | cons d c =>
      obtain ⟨rfl, -⟩ := List.cons.inj hrest
      exact absurd (hfront b (by simp [hc])) (not_lt.mpr (hb.le ha.mem))

/-- **What the scan finds.** -/
theorem firstLeast_spec (cost : α → γ) (bound : γ) (l : List α) :
    (firstLeast cost bound l = (none, bound) ∧ ∀ a ∈ l, bound ≤ cost a) ∨
      ∃ a, firstLeast cost bound l = (some a, cost a) ∧ FirstLeast cost bound l a := by
  induction l using List.reverseRecOn with
  | nil => exact .inl ⟨rfl, fun _ ha => absurd ha List.not_mem_nil⟩
  | append_singleton l b ih =>
    have hstep : firstLeast cost bound (l ++ [b]) =
        if cost b < (firstLeast cost bound l).2 then (some b, cost b)
        else firstLeast cost bound l := by
      rw [firstLeast, List.foldl_append]
      rfl
    rw [hstep]
    obtain ⟨hnone, hall⟩ | ⟨a, hsome, hleast⟩ := ih
    · rw [hnone]
      by_cases hless : cost b < bound
      · refine .inr ⟨b, if_pos hless, hless, l, [], rfl, fun b' hb' => ?_, fun _ h => by cases h⟩
        exact lt_of_lt_of_le hless (hall b' hb')
      · refine .inl ⟨if_neg hless, fun b' hb' => ?_⟩
        obtain hold | hlast := List.mem_append.mp hb'
        · exact hall b' hold
        · rw [List.mem_singleton.mp hlast]
          exact le_of_not_gt hless
    · rw [hsome]
      right
      by_cases hless : cost b < cost a
      · refine ⟨b, if_pos hless, lt_trans hless hleast.below, l, [], rfl, fun b' hb' => ?_,
          fun _ h => by cases h⟩
        exact lt_of_lt_of_le hless (hleast.le hb')
      · refine ⟨a, if_neg hless, hleast.below, ?_⟩
        obtain ⟨before, after, rfl, hbefore, hafter⟩ := hleast.split
        refine ⟨before, after ++ [b], by simp, hbefore, fun b' hb' => ?_⟩
        obtain hold | hlast := List.mem_append.mp hb'
        · exact hafter b' hold
        · rw [List.mem_singleton.mp hlast]
          exact le_of_not_gt hless

/-- A scan that keeps a view of the best element so far. -/
theorem foldl_firstLeast {β : Type} (view : Option α × γ → β) (step : β → α → β)
    (hstep : ∀ best a, step (view best) a =
      view (if cost a < best.2 then (some a, cost a) else best)) (l : List α) :
    l.foldl step (view (none, bound)) = view (firstLeast cost bound l) := by
  induction l using List.reverseRecOn with
  | nil => rfl
  | append_singleton l a ih =>
    rw [firstLeast, List.foldl_append, List.foldl_append, ih]
    exact hstep _ a

end IowarpCore
