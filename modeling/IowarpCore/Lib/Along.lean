/-
Steps taken along a list.

`Along step l s s'` is a run from `s` to `s'` that takes one step for each element of `l`,
in order.  What every step preserves the run preserves, and a condition on every step of
a run is a condition in `step`.
-/
import Mathlib.Data.List.Basic

namespace IowarpCore

variable {α σ : Type}

/-- One step for each element, one after another. -/
def Along (step : α → σ → σ → Prop) : List α → σ → σ → Prop
  | [], s, s' => s' = s
  | a :: l, s, s' => ∃ s₁, step a s s₁ ∧ Along step l s₁ s'

namespace Along

variable {step step' : α → σ → σ → Prop} {l l' : List α} {s s' : σ}

/-- What every step preserves, the run preserves. -/
theorem invariant {I : σ → Prop} (h : Along step l s s')
    (hstep : ∀ a ∈ l, ∀ s s', I s → step a s s' → I s') : I s → I s' := by
  induction l generalizing s with
  | nil =>
    intro hs
    rw [h]
    exact hs
  | cons a l ih =>
    intro hs
    obtain ⟨s₁, hfirst, hrest⟩ := h
    refine ih hrest (fun b hb => hstep b (List.mem_cons_of_mem _ hb)) ?_
    exact hstep a (by simp) s s₁ hs hfirst

theorem mono (hmono : ∀ a s s', step a s s' → step' a s s') (h : Along step l s s') :
    Along step' l s s' := by
  induction l generalizing s with
  | nil => exact h
  | cons a l ih =>
    obtain ⟨s₁, hfirst, hrest⟩ := h
    exact ⟨s₁, hmono _ _ _ hfirst, ih hrest⟩

/-- A script of steps that goes through. -/
theorem of_foldlM {f : α → σ → Option σ} (h : l.foldlM (fun s a => f a s) s = some s') :
    Along (fun a s s' => f a s = some s') l s s' := by
  induction l generalizing s with
  | nil => exact (Option.some.inj h).symm
  | cons a l ih =>
    rw [List.foldlM_cons] at h
    obtain ⟨s₁, hfirst, hrest⟩ := Option.bind_eq_some_iff.mp h
    exact ⟨s₁, hfirst, ih hrest⟩

/-- Every step of a function finds its condition met. -/
def Checked (ok : α → σ → Prop) (f : σ → α → σ) : List α → σ → Prop
  | [], _ => True
  | a :: l, s => ok a s ∧ Checked ok f l (f s a)

instance decidableChecked (ok : α → σ → Prop) (f : σ → α → σ) [∀ a s, Decidable (ok a s)] :
    (l : List α) → (s : σ) → Decidable (Checked ok f l s)
  | [], _ => inferInstanceAs (Decidable True)
  | a :: l, s =>
    let := decidableChecked ok f l (f s a)
    inferInstanceAs (Decidable (_ ∧ _))

theorem of_foldl {ok : α → σ → Prop} {f : σ → α → σ} {l : List α} {s : σ}
    (h : Checked ok f l s) : Along (fun a s s' => ok a s ∧ s' = f s a) l s (l.foldl f s) := by
  induction l generalizing s with
  | nil => rfl
  | cons a l ih => exact ⟨f s a, ⟨h.1, rfl⟩, ih h.2⟩

/-- A script of steps that goes through and passes its checks, under the names of the
steps. -/
theorem of_checked {β : Type} {act : σ → β → Option σ} {check : σ → β → σ → Bool} {label : β → α}
    (hstep : ∀ s b s', act s b = some s' → check s b s' = true → step (label b) s s')
    {bs : List β}
    (h : bs.foldlM (fun s b => (act s b).filter (check s b)) s = some s') :
    Along step (bs.map label) s s' := by
  induction bs generalizing s with
  | nil => exact (Option.some.inj h).symm
  | cons b bs ih =>
    rw [List.foldlM_cons] at h
    obtain ⟨s₁, hfirst, hrest⟩ := Option.bind_eq_some_iff.mp h
    obtain ⟨hact, hcheck⟩ := Option.filter_eq_some_iff.mp hfirst
    exact ⟨s₁, hstep s b s₁ hact hcheck, ih hrest⟩

/-- Two kinds of steps that agree wherever an invariant of the first holds. -/
theorem congr_of_invariant {I : σ → Prop} (hiff : ∀ a s s', I s → (step a s s' ↔ step' a s s'))
    (hkeep : ∀ a s s', I s → step a s s' → I s') (hs : I s) :
    Along step l s s' ↔ Along step' l s s' := by
  induction l generalizing s with
  | nil => exact Iff.rfl
  | cons a l ih =>
    constructor
    · rintro ⟨s₁, hfirst, hrest⟩
      exact ⟨s₁, (hiff a s s₁ hs).mp hfirst, (ih (hkeep a s s₁ hs hfirst)).mp hrest⟩
    · rintro ⟨s₁, hfirst, hrest⟩
      have hfirst' := (hiff a s s₁ hs).mpr hfirst
      exact ⟨s₁, hfirst', (ih (hkeep a s s₁ hs hfirst')).mpr hrest⟩

end Along

end IowarpCore
