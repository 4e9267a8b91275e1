/-
Threads that share a state.

Each thread has a local state of its own.  A step is taken by one thread: `next` says
what the thread does with the shared state and with its local one, given what it was told
to do.  Any thread may take the next step, so a run is any interleaving.

An invariant of such a system is mostly of two kinds: something every thread satisfies,
and a shared counter that is the number of threads at some places.  `Threads.at_set`
and `Threads.countP_step` are what a step does to each.
-/
import IowarpCore.Lib.Along

namespace IowarpCore

/-- A shared state and the local states of any number of threads. -/
structure Threads (σ τ : Type) where
  shared : σ
  locals : List τ
deriving DecidableEq, Repr

namespace Threads

variable {μ σ τ : Type} {next : μ → σ → τ → Option (σ × τ)}

/-- The thread at a place takes a step, if it can. -/
def step (next : μ → σ → τ → Option (σ × τ)) (mv : Nat × μ) (s : Threads σ τ) :
    Option (Threads σ τ) := do
  let t ← s.locals[mv.1]?
  let r ← next mv.2 s.shared t
  return ⟨r.1, s.locals.set mv.1 r.2⟩

/-- A script of steps. -/
def steps (next : μ → σ → τ → Option (σ × τ)) :
    List (Nat × μ) → Threads σ τ → Option (Threads σ τ)
  | [], s => some s
  | mv :: mvs, s => (step next mv s).bind (steps next mvs)

/-- **What a step is**: one thread moves, the others stay where they are. -/
theorem step_eq_some {mv : Nat × μ} {s s' : Threads σ τ} :
    step next mv s = some s' ↔
      ∃ t sh t', s.locals[mv.1]? = some t ∧ next mv.2 s.shared t = some (sh, t') ∧
        s' = ⟨sh, s.locals.set mv.1 t'⟩ := by
  unfold step
  constructor
  · intro h
    obtain ⟨t, ht, h⟩ := Option.bind_eq_some_iff.mp h
    obtain ⟨r, hr, h⟩ := Option.bind_eq_some_iff.mp h
    exact ⟨t, r.1, r.2, ht, hr, (Option.some.inj h).symm⟩
  · rintro ⟨t, sh, t', ht, hr, rfl⟩
    simp [ht, hr]

/-- A step that the thread takes from a state that meets `ok`. -/
def StepIf (next : μ → σ → τ → Option (σ × τ)) (ok : μ → σ → τ → Prop) (mv : Nat × μ)
    (s s' : Threads σ τ) : Prop :=
  step next mv s = some s' ∧ ∀ t, s.locals[mv.1]? = some t → ok mv.2 s.shared t

theorem StepIf.cases {ok : μ → σ → τ → Prop} {mv : Nat × μ} {s s' : Threads σ τ}
    (h : StepIf next ok mv s s') :
    ∃ t sh t', s.locals[mv.1]? = some t ∧ next mv.2 s.shared t = some (sh, t') ∧
      ok mv.2 s.shared t ∧ s' = ⟨sh, s.locals.set mv.1 t'⟩ := by
  obtain ⟨t, sh, t', ht, hnext, hs'⟩ := step_eq_some.mp h.1
  exact ⟨t, sh, t', ht, hnext, h.2 t ht, hs'⟩

/-- The steps of a thread with those left out that do not meet `ok`. -/
def guarded (next : μ → σ → τ → Option (σ × τ)) (ok : μ → σ → τ → Prop)
    [∀ mv s t, Decidable (ok mv s t)] (mv : μ) (s : σ) (t : τ) : Option (σ × τ) :=
  if ok mv s t then next mv s t else none

/-- A script that goes through is a run. -/
theorem along_guarded {ok : μ → σ → τ → Prop} [∀ mv s t, Decidable (ok mv s t)]
    {mvs : List (Nat × μ)} {s s' : Threads σ τ} (h : steps (guarded next ok) mvs s = some s') :
    Along (StepIf next ok) mvs s s' := by
  induction mvs generalizing s with
  | nil => exact (Option.some.inj h).symm
  | cons mv mvs ih =>
    obtain ⟨s₁, hfirst, hrest⟩ := Option.bind_eq_some_iff.mp h
    refine ⟨s₁, ?_, ih hrest⟩
    obtain ⟨t, sh, t', ht, hnext, rfl⟩ := step_eq_some.mp hfirst
    unfold guarded at hnext
    split at hnext
    case isTrue hok =>
      refine ⟨step_eq_some.mpr ⟨t, sh, t', ht, hnext, rfl⟩, ?_⟩
      intro u hu
      rw [ht] at hu
      rw [← Option.some.inj hu]
      exact hok
    case isFalse => cases hnext

/-! ### The threads after a step -/

variable {l : List τ} {i j : Nat} {t t' u : τ}

/-- A thread after a step is the one that moved or one that was there. -/
theorem at_set (hi : l[i]? = some t) (hj : (l.set i t')[j]? = some u) :
    (j = i ∧ u = t') ∨ (j ≠ i ∧ l[j]? = some u) := by
  have hlt : i < l.length := (List.getElem?_eq_some_iff.mp hi).1
  by_cases hji : j = i
  · subst hji
    rw [List.getElem?_set_self hlt] at hj
    exact Or.inl ⟨rfl, (Option.some.inj hj).symm⟩
  · rw [List.getElem?_set_ne (Ne.symm hji)] at hj
    exact Or.inr ⟨hji, hj⟩

/-- What every thread satisfies is kept when the one that moves satisfies it afterwards and
the others are not harmed. -/
theorem forall_set {P Q : Nat → τ → Prop} (hi : l[i]? = some t)
    (h : ∀ j u, l[j]? = some u → P j u) (hself : Q i t')
    (hothers : ∀ j u, j ≠ i → l[j]? = some u → P j u → Q j u) :
    ∀ j u, (l.set i t')[j]? = some u → Q j u := by
  intro j u hj
  rcases at_set hi hj with ⟨rfl, rfl⟩ | ⟨hne, hju⟩
  · exact hself
  · exact hothers j u hne hju (h j u hju)

/-- Some thread satisfies `P`: this one or another. -/
theorem exists_mem_iff {P : τ → Prop} (hi : l[i]? = some t) :
    (∃ u ∈ l, P u) ↔ P t ∨ ∃ (j : Nat) (u : τ), j ≠ i ∧ l[j]? = some u ∧ P u := by
  constructor
  · rintro ⟨u, hmem, hu⟩
    obtain ⟨j, hj⟩ := List.mem_iff_getElem?.mp hmem
    by_cases hji : j = i
    · subst hji
      rw [hi] at hj
      rw [Option.some.inj hj]
      exact Or.inl hu
    · exact Or.inr ⟨j, u, hji, hj, hu⟩
  · rintro (ht | ⟨j, u, -, hj, hu⟩)
    · exact ⟨t, List.mem_of_getElem? hi, ht⟩
    · exact ⟨u, List.mem_of_getElem? hj, hu⟩

/-- After a step the others are as they were. -/
theorem exists_mem_set_iff {P : τ → Prop} (hi : l[i]? = some t) :
    (∃ u ∈ l.set i t', P u) ↔ P t' ∨ ∃ (j : Nat) (u : τ), j ≠ i ∧ l[j]? = some u ∧ P u := by
  have hlt : i < l.length := (List.getElem?_eq_some_iff.mp hi).1
  rw [exists_mem_iff (List.getElem?_set_self hlt)]
  refine or_congr_right (exists_congr fun j => exists_congr fun u => ?_)
  refine and_congr_right fun hji => ?_
  rw [List.getElem?_set_ne (Ne.symm hji)]

/-- The number of threads at some places: the one that moved may have left or arrived. -/
theorem countP_step (p : τ → Bool) (t' : τ) (hi : l[i]? = some t) :
    (l.set i t').countP p + (if p t then 1 else 0) = l.countP p + (if p t' then 1 else 0) := by
  obtain ⟨hlt, rfl⟩ := List.getElem?_eq_some_iff.mp hi
  rw [List.countP_set hlt]
  have hpos : p l[i] = true → 0 < l.countP p :=
    fun hp => List.countP_pos_iff.mpr ⟨l[i], List.getElem_mem hlt, hp⟩
  split_ifs with h1 h2
  · have := hpos h1
    omega
  · have := hpos h1
    omega
  · omega
  · omega

theorem countP_pos (p : τ → Bool) (hi : l[i]? = some t) (hp : p t = true) :
    0 < l.countP p :=
  List.countP_pos_iff.mpr ⟨t, List.mem_of_getElem? hi, hp⟩

/-- At most one thread is at some places when no two are. -/
theorem countP_le_one {p : τ → Bool} (h : ∀ (i j : Nat) (t u : τ), l[i]? = some t → l[j]? = some u →
    p t = true → p u = true → i = j) : l.countP p ≤ 1 := by
  induction l with
  | nil => simp
  | cons a l ih =>
    have hrest : l.countP p ≤ 1 := by
      refine ih (fun i j t u hi hj hp hq => ?_)
      have := h (i + 1) (j + 1) t u (by simpa using hi) (by simpa using hj) hp hq
      omega
    by_cases ha : p a = true
    · have hzero : l.countP p = 0 := by
        rw [List.countP_eq_zero]
        intro u hu hpu
        obtain ⟨j, hj⟩ := List.mem_iff_getElem?.mp hu
        have := h 0 (j + 1) a u (by simp) (by simpa using hj) ha hpu
        omega
      have hcons := List.countP_cons_of_pos (l := l) ha
      omega
    · rw [List.countP_cons_of_neg ha]
      exact hrest

theorem countP_le_add {p q r : τ → Bool} (h : ∀ t, p t = true → q t = true ∨ r t = true) :
    l.countP p ≤ l.countP q + l.countP r := by
  induction l with
  | nil => simp
  | cons a l ih =>
    simp only [List.countP_cons]
    have ha := h a
    split_ifs <;> simp_all <;> omega

end Threads

end IowarpCore
