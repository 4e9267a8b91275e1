/-
Call stacks that can be suspended.

A call pushes a frame, a return pops it and goes on with its caller, and the stack as a whole
can be suspended and resumed.  Frames are numbered in the order of their calls.  What an
implementation does to the frames is told by a trace, and `Accounts` says that it is what a
call stack does: every frame that has returned is destroyed once, and hands over to its
caller once, when it is finished.
-/
import Mathlib.Data.List.Nodup
import IowarpCore.Lib.Along

namespace IowarpCore

structure CallStack where
  /-- The frames that have not returned, the innermost one first. -/
  frames : List Nat
  /-- Who called each frame. -/
  callers : List (Option Nat)
  suspended : Bool
deriving DecidableEq, Repr

namespace CallStack

inductive Move where
  | call
  | suspend
  | ret
  | resume
deriving DecidableEq, Repr

/-- One frame is there and runs. -/
def start : CallStack := ⟨[0], [none], false⟩

def step (move : Move) (s : CallStack) : Option CallStack :=
  match move, s.suspended, s.frames with
  | .call, false, f :: rest =>
    some { s with frames := s.callers.length :: f :: rest, callers := s.callers ++ [some f] }
  | .suspend, false, _ :: _ => some { s with suspended := true }
  | .ret, false, _ :: rest => some { s with frames := rest }
  | .resume, true, _ => some { s with suspended := false }
  | _, _, _ => none

/-- The moves are made one after another. -/
abbrev Runs : List Move → CallStack → CallStack → Prop :=
  Along fun move s s' => s.step move = some s'

/-- The frame has been there and has returned. -/
def Returned (s : CallStack) (i : Nat) : Prop := i < s.callers.length ∧ i ∉ s.frames

instance (s : CallStack) (i : Nat) : Decidable (s.Returned i) := inferInstanceAs (Decidable (_ ∧ _))

/-- Frames have numbers of their own and lie on their callers. -/
structure Ok (s : CallStack) : Prop where
  nodup : s.frames.Nodup
  bound : ∀ i ∈ s.frames, i < s.callers.length
  caller : ∀ j i, s.frames[j]? = some i → s.callers[i]? = some s.frames[j + 1]?
  ready : s.suspended = true → s.frames ≠ []
  /-- The first frame is the outermost one. -/
  outermost : s.frames = [] ∨ s.frames.getLast? = some 0
  called : 0 < s.callers.length

theorem ok_start : start.Ok where
  nodup := by decide
  bound := by decide
  caller j i h := by
    cases j with
    | zero =>
      cases h
      rfl
    | succ j => cases h
  ready h := by cases h
  outermost := Or.inr rfl
  called := Nat.one_pos

variable {s : CallStack} {i : Nat} {rest : List Nat}

theorem Ok.next_notMem (h : s.Ok) : s.callers.length ∉ s.frames :=
  fun hmem => Nat.lt_irrefl _ (h.bound _ hmem)

theorem Ok.call (h : s.Ok) (hframes : s.frames = i :: rest) (hrun : s.suspended = false) :
    Ok { s with frames := s.callers.length :: i :: rest, callers := s.callers ++ [some i] } where
  nodup := List.nodup_cons.mpr ⟨hframes ▸ h.next_notMem, hframes ▸ h.nodup⟩
  bound f hf := by
    rw [List.length_append]
    rcases List.mem_cons.mp hf with rfl | hf
    · exact Nat.lt_succ_self _
    · exact Nat.lt_succ_of_lt (h.bound f (hframes ▸ hf))
  caller j f hf := by
    cases j with
    | zero =>
      obtain rfl := Option.some.inj hf
      exact List.getElem?_concat_length
    | succ j =>
      have hold : s.frames[j]? = some f := hframes ▸ hf
      have hlt := h.bound f (List.mem_of_getElem? hold)
      rw [List.getElem?_append_left hlt, h.caller j f hold, hframes]
      rfl
  ready hsusp := by
    dsimp only at hsusp
    rw [hrun] at hsusp
    cases hsusp
  outermost := by
    right
    rw [List.getLast?_cons_cons, ← hframes]
    exact h.outermost.resolve_left (hframes ▸ List.cons_ne_nil i rest)
  called := by
    rw [List.length_append]
    exact Nat.succ_pos _

theorem Ok.ret (h : s.Ok) (hframes : s.frames = i :: rest) (hrun : s.suspended = false) :
    Ok { s with frames := rest } where
  nodup := (List.nodup_cons.mp (hframes ▸ h.nodup)).2
  bound f hf := h.bound f (hframes ▸ List.mem_cons_of_mem i hf)
  caller j f hf := by
    have hold : s.frames[j + 1]? = some f := by
      rw [hframes]
      exact hf
    rw [h.caller (j + 1) f hold, hframes]
    rfl
  ready hsusp := by
    dsimp only at hsusp
    rw [hrun] at hsusp
    cases hsusp
  outermost := by
    cases rest with
    | nil => exact Or.inl rfl
    | cons c rest =>
      have hlast := h.outermost.resolve_left (hframes ▸ List.cons_ne_nil i (c :: rest))
      rw [hframes, List.getLast?_cons_cons] at hlast
      exact Or.inr hlast
  called := h.called

/-- The outermost frame returns last. -/
theorem Ok.returned_outermost (h : s.Ok) : s.Returned 0 ↔ s.frames = [] := by
  constructor
  · intro hret
    rcases h.outermost with hnil | hlast
    · exact hnil
    · exact absurd (List.mem_of_getLast? hlast) hret.2
  · intro hnil
    exact ⟨h.called, by rw [hnil]; exact List.not_mem_nil⟩

/-! ### Traces -/

/-- What happens to frames. -/
inductive Occurrence where
  | finished (frame : Nat)
  /-- The caller goes on behind its call of the frame. -/
  | resumed (frame caller : Nat)
  | destroyed (frame : Nat)
deriving DecidableEq, Repr

/-- What may happen in a move. -/
def Occurs (s : CallStack) (move : Move) (new : List Occurrence) : Prop :=
  match move, s.frames with
  | .ret, [i] => new = [.finished i, .destroyed i]
  | .ret, i :: caller :: _ =>
    new = [.finished i, .resumed i caller, .destroyed i] ∨
      new = [.finished i, .destroyed i, .resumed i caller]
  | _, _ => new = []

/-- A frame hands over when it is finished. -/
def Ordered (trace : List Occurrence) : Prop :=
  ∀ front i caller, front ++ [.resumed i caller] <+: trace → .finished i ∈ front

theorem ordered_nil : Ordered [] := fun front _ _ h => absurd (List.prefix_nil.mp h) (by simp)

theorem Ordered.concat {trace : List Occurrence} (h : Ordered trace) {o : Occurrence}
    (ho : ∀ i caller, o = .resumed i caller → .finished i ∈ trace) : Ordered (trace ++ [o]) := by
  intro front i caller hfront
  rcases List.prefix_concat_iff.mp hfront with heq | hold
  · obtain ⟨rfl, hsame⟩ := List.append_inj' heq rfl
    exact ho i caller (List.singleton_inj.mp hsame).symm
  · exact h front i caller hold

/-- The trace is that of the stack. -/
structure Accounts (s : CallStack) (trace : List Occurrence) : Prop where
  finished : ∀ i, .finished i ∈ trace ↔ s.Returned i
  destroyed : ∀ i, trace.count (.destroyed i) = if s.Returned i then 1 else 0
  resumed : ∀ i caller, trace.count (.resumed i caller) =
    if s.Returned i ∧ s.callers[i]? = some (some caller) then 1 else 0
  ordered : Ordered trace

theorem accounts_start : start.Accounts [] where
  finished i := by
    have hnot : ¬ start.Returned i := by
      rintro ⟨hlt, hnot⟩
      obtain rfl : i = 0 := Nat.lt_one_iff.mp hlt
      exact hnot List.mem_cons_self
    exact iff_of_false List.not_mem_nil hnot
  destroyed i := by
    rw [if_neg]
    · rfl
    · rintro ⟨hlt, hnot⟩
      obtain rfl : i = 0 := Nat.lt_one_iff.mp hlt
      exact hnot List.mem_cons_self
  resumed i caller := by
    rw [if_neg]
    · rfl
    · rintro ⟨⟨hlt, hnot⟩, -⟩
      obtain rfl : i = 0 := Nat.lt_one_iff.mp hlt
      exact hnot List.mem_cons_self
  ordered := ordered_nil

variable {trace : List Occurrence}

/-- A call returns nobody. -/
theorem returned_call (hframes : s.frames = i :: rest) (f : Nat) :
    Returned { s with frames := s.callers.length :: i :: rest, callers := s.callers ++ [some i] } f ↔
      s.Returned f := by
  unfold Returned
  rw [List.length_append, List.mem_cons, ← hframes]
  constructor
  · rintro ⟨hlt, hnot⟩
    rw [not_or] at hnot
    exact ⟨Nat.lt_of_le_of_ne (Nat.lt_succ_iff.mp hlt) hnot.1, hnot.2⟩
  · rintro ⟨hlt, hnot⟩
    exact ⟨Nat.lt_succ_of_lt hlt, not_or.mpr ⟨Nat.ne_of_lt hlt, hnot⟩⟩

theorem Accounts.call (h : s.Accounts trace) (hframes : s.frames = i :: rest) :
    Accounts { s with frames := s.callers.length :: i :: rest, callers := s.callers ++ [some i] }
      trace where
  finished f := by rw [h.finished, returned_call hframes]
  destroyed f := by
    rw [h.destroyed]
    exact if_congr (returned_call hframes f).symm rfl rfl
  resumed f caller := by
    rw [h.resumed]
    refine if_congr ?_ rfl rfl
    rw [returned_call hframes]
    refine and_congr_right fun hret => ?_
    rw [List.getElem?_append_left hret.1]
  ordered := h.ordered

/-- A return returns one frame. -/
theorem returned_ret (h : s.Ok) (hframes : s.frames = i :: rest) (f : Nat) :
    Returned { s with frames := rest } f ↔ s.Returned f ∨ f = i := by
  unfold Returned
  rw [hframes, List.mem_cons, not_or]
  have hi : i < s.callers.length := h.bound i (hframes ▸ List.mem_cons_self)
  have hnot : i ∉ rest := (List.nodup_cons.mp (hframes ▸ h.nodup)).1
  constructor
  · rintro ⟨hlt, hrest⟩
    by_cases hfi : f = i
    · exact Or.inr hfi
    · exact Or.inl ⟨hlt, hfi, hrest⟩
  · rintro (⟨hlt, -, hrest⟩ | rfl)
    · exact ⟨hlt, hrest⟩
    · exact ⟨hi, hnot⟩

theorem Ok.not_returned (hframes : s.frames = i :: rest) : ¬ s.Returned i :=
  fun h => h.2 (hframes ▸ List.mem_cons_self)

/-- What a return adds to a trace. -/
structure Handover (i : Nat) (caller : Option Nat) (new : List Occurrence) : Prop where
  finished : ∀ f, .finished f ∈ new ↔ i = f
  destroyed : ∀ f, new.count (.destroyed f) = if i = f then 1 else 0
  resumed : ∀ f c, new.count (.resumed f c) = if i = f ∧ caller = some c then 1 else 0
  ordered : ∀ trace, Ordered trace → Ordered (trace ++ new)

theorem Occurs.handover {new : List Occurrence} (hframes : s.frames = i :: rest)
    (hnew : s.Occurs .ret new) : Handover i rest.head? new := by
  unfold Occurs at hnew
  rw [hframes] at hnew
  have hplain : ∀ {trace : List Occurrence} {o : Occurrence}, Ordered trace →
      (∀ i caller, o ≠ .resumed i caller) → Ordered (trace ++ [o]) := fun h ho =>
    h.concat fun i caller heq => absurd heq (ho i caller)
  cases rest with
  | nil =>
    dsimp only at hnew
    subst hnew
    refine ⟨by simp [eq_comm], by simp [List.count_cons], by simp, fun trace h => ?_⟩
    rw [List.append_cons]
    exact hplain (hplain h (by simp)) (by simp)
  | cons c rest =>
    rcases hnew with rfl | rfl
    · refine ⟨by simp [eq_comm], by simp [List.count_cons], by simp [List.count_cons], fun trace h => ?_⟩
      rw [List.append_cons, List.append_cons]
      refine hplain (Ordered.concat (hplain h (by simp)) fun f caller heq => ?_) (by simp)
      cases heq
      exact List.mem_append_right _ (List.mem_singleton_self _)
    · refine ⟨by simp [eq_comm], by simp [List.count_cons], by simp [List.count_cons], fun trace h => ?_⟩
      rw [List.append_cons, List.append_cons]
      refine Ordered.concat (hplain (hplain h (by simp)) (by simp)) fun f caller heq => ?_
      cases heq
      exact List.mem_append_left _ (List.mem_append_right _ (List.mem_singleton_self _))

theorem Accounts.ret (h : s.Accounts trace) (hok : s.Ok) (hframes : s.frames = i :: rest)
    {new : List Occurrence} (hnew : s.Occurs .ret new) :
    Accounts { s with frames := rest } (trace ++ new) := by
  have hover := hnew.handover hframes
  have hcaller : s.callers[i]? = some rest.head? := by
    have hbelow := hok.caller 0 i (by rw [hframes]; rfl)
    rwa [hframes, List.getElem?_cons_succ, ← List.head?_eq_getElem?] at hbelow
  have hself : ¬ s.Returned i := Ok.not_returned hframes
  have hreturned : ∀ f, Returned { s with frames := rest } f ↔ s.Returned f ∨ i = f := fun f => by
    rw [returned_ret hok hframes, eq_comm]
  refine ⟨fun f => ?_, fun f => ?_, fun f caller => ?_, hover.ordered trace h.ordered⟩
  · rw [List.mem_append, h.finished, hover.finished, hreturned]
  · rw [List.count_append, h.destroyed, hover.destroyed]
    by_cases hfi : i = f
    · subst hfi
      rw [if_neg hself, if_pos rfl, if_pos ((hreturned i).mpr (Or.inr rfl))]
    · rw [if_neg hfi, Nat.add_zero]
      exact if_congr ((hreturned f).trans (or_iff_left hfi)).symm rfl rfl
  · rw [List.count_append, h.resumed, hover.resumed]
    by_cases hfi : i = f
    · subst hfi
      rw [if_neg fun hc => hself hc.1, Nat.zero_add]
      refine if_congr ?_ rfl rfl
      dsimp only
      rw [hcaller, Option.some.injEq]
      exact and_congr_left fun _ => iff_of_true rfl ((hreturned i).mpr (Or.inr rfl))
    · rw [if_neg fun hc : i = f ∧ _ => hfi hc.1, Nat.add_zero]
      refine if_congr (and_congr_left fun _ => ?_) rfl rfl
      exact ((hreturned f).trans (or_iff_left hfi)).symm

/-- A stack and its trace go on together. -/
theorem Accounts.step (h : s.Accounts trace) (hok : s.Ok) {move : Move} {s' : CallStack}
    (hstep : s.step move = some s') {new : List Occurrence} (hnew : s.Occurs move new) :
    s'.Ok ∧ s'.Accounts (trace ++ new) := by
  obtain ⟨frames, callers, suspended⟩ := s
  cases frames with
  | nil =>
    cases move <;> cases suspended <;> cases hstep
    exact absurd rfl (hok.ready rfl)
  | cons f rest =>
    cases move <;> cases suspended <;> cases hstep
    · obtain rfl : new = [] := hnew
      rw [List.append_nil]
      exact ⟨hok.call rfl rfl, h.call rfl⟩
    · obtain rfl : new = [] := hnew
      rw [List.append_nil]
      exact ⟨⟨hok.nodup, hok.bound, hok.caller, fun _ => List.cons_ne_nil f rest, hok.outermost,
          hok.called⟩,
        ⟨h.finished, h.destroyed, h.resumed, h.ordered⟩⟩
    · exact ⟨hok.ret rfl rfl, h.ret hok rfl hnew⟩
    · obtain rfl : new = [] := hnew
      rw [List.append_nil]
      exact ⟨⟨hok.nodup, hok.bound, hok.caller, (fun h => by cases h), hok.outermost, hok.called⟩,
        ⟨h.finished, h.destroyed, h.resumed, h.ordered⟩⟩

end CallStack
end IowarpCore
