/-
A logic for tasks that take turns at their awaits.

Between two awaits a task has the shared state to itself; at an await it must leave the
state fit for the others, and finds it as they left it.  `Wp I G x P e s` says that the task
`x`, going on in the state `s`, leaves `I` at every await and `P` at its end, if the others
keep `I` and what happens while it waits is within `G`.  The replies are not restricted
at all, so nothing here depends on the servers.

`Parked` is what a waiting task may count on, and `moves_sound` the rule for whole pools:
if every task started satisfies its `Wp`, the invariant holds after every step.
-/
import IowarpCore.Lib.Interleave

namespace IowarpCore
namespace Co

variable {τ σ δ ε Q R α β : Type}

/-- `e` is what the others know beside the state: a task neither sees nor changes it, and
while the task waits it may become anything that `I` allows. -/
def Wp (I : ε → σ → Prop) (G : σ → σ → Prop) :
    Co σ Q R α → (α → ε → σ → Prop) → ε → σ → Prop
  | ret a, P, e, s => P a e s
  | get k, P, e, s => Wp I G (k s) P e s
  | set s₁ k, P, e, _ => Wp I G k P e s₁
  | choose k, P, e, s => ∀ n, Wp I G (k n) P e s
  | io _ _ k, P, e, s => I e s ∧ ∀ rs e' s', I e' s' → G s s' → Wp I G (k rs) P e' s'

section

variable {I : ε → σ → Prop} {G : σ → σ → Prop} {e : ε} {s : σ}

theorem wp_mono {x : Co σ Q R α} {P P' : α → ε → σ → Prop} (hP : ∀ a e s, P a e s → P' a e s)
    (h : Wp I G x P e s) : Wp I G x P' e s := by
  induction x generalizing e s with
  | ret a => exact hP a e s h
  | get k ih => exact ih s h
  | set s₁ k ih => exact ih h
  | choose k ih =>
    intro n
    exact ih n (h n)
  | io qs ok k ih => exact ⟨h.1, fun rs e' s' hI hG => ih rs (h.2 rs e' s' hI hG)⟩

@[simp] theorem wp_ret {a : α} {P : α → ε → σ → Prop} :
    Wp I G (ret a : Co σ Q R α) P e s ↔ P a e s := Iff.rfl

@[simp] theorem wp_bind {x : Co σ Q R α} {f : α → Co σ Q R β} {P : β → ε → σ → Prop} :
    Wp I G (x.bind f) P e s ↔ Wp I G x (fun a e s => Wp I G (f a) P e s) e s := by
  induction x generalizing e s with
  | ret a => exact Iff.rfl
  | get k ih => exact ih s
  | set s₁ k ih => exact ih
  | choose k ih => exact forall_congr' fun n => ih n
  | io qs ok k ih =>
    refine and_congr_right fun _ => ?_
    refine forall_congr' fun rs => forall_congr' fun e' => forall_congr' fun s' => ?_
    refine forall_congr' fun _ => forall_congr' fun _ => ?_
    exact ih rs

@[simp] theorem wp_read {P : σ → ε → σ → Prop} :
    Wp I G (read : Co σ Q R σ) P e s ↔ P s e s := Iff.rfl

theorem wp_call [Inhabited R] {q : Q} {P : R → ε → σ → Prop} (hI : I e s)
    (h : ∀ r e' s', I e' s' → G s s' → P r e' s') : Wp I G (call q : Co σ Q R R) P e s :=
  ⟨hI, fun rs e' s' hI' hG => h (rs.headD default) e' s' hI' hG⟩

theorem wp_callAll {ok : Q → R → Bool} {qs : List Q} {P : List R → ε → σ → Prop} (hI : I e s)
    (h : ∀ rs e' s', I e' s' → G s s' → P rs e' s') :
    Wp I G (callAll ok qs : Co σ Q R (List R)) P e s :=
  ⟨hI, h⟩

theorem wp_shuffleFuel (n : Nat) : ∀ {l : List α} {P : List α → ε → σ → Prop},
    (∀ l', l'.Perm l → P l' e s) → Wp I G (shuffleFuel n l : Co σ Q R (List α)) P e s := by
  induction n with
  | zero =>
    intro l P h
    exact h l (List.Perm.refl l)
  | succ n ih =>
    intro l P h i
    beta_reduce
    generalize i % l.length = j
    cases hget : l[j]? with
    | none => exact h l (List.Perm.refl l)
    | some a =>
      obtain ⟨hlt, hval⟩ := List.getElem?_eq_some_iff.mp hget
      simp only [wp_bind, wp_ret]
      refine ih fun rest hrest => h _ ?_
      rw [← hval]
      exact (hrest.cons _).trans (List.getElem_cons_eraseIdx_perm hlt)

theorem wp_shuffle {l : List α} {P : List α → ε → σ → Prop} (h : ∀ l', l'.Perm l → P l' e s) :
    Wp I G (shuffle l : Co σ Q R (List α)) P e s :=
  wp_shuffleFuel l.length h

end

/-! ### Tasks that never wait -/

def Quiet : Co σ Q R α → Prop
  | ret _ => True
  | get k => ∀ s, Quiet (k s)
  | set _ k => Quiet k
  | choose k => ∀ n, Quiet (k n)
  | io _ _ _ => False

theorem quiet_bind {x : Co σ Q R α} {f : α → Co σ Q R β} (hx : Quiet x)
    (hf : ∀ a, Quiet (f a)) : Quiet (x.bind f) := by
  induction x with
  | ret a => exact hf a
  | get k ih => exact fun s => ih s (hx s)
  | set s₁ k ih => exact ih hx
  | choose k ih => exact fun n => ih n (hx n)
  | io qs ok k ih => exact hx.elim

theorem quiet_shuffle (l : List α) : Quiet (shuffle l : Co σ Q R (List α)) := by
  have hfuel : ∀ (n : Nat) (l : List α), Quiet (shuffleFuel n l : Co σ Q R (List α)) := by
    intro n
    induction n with
    | zero => exact fun _ => trivial
    | succ n ih =>
      intro l i
      beta_reduce
      cases l[i % l.length]? with
      | none => trivial
      | some a => exact quiet_bind (ih _) fun _ => trivial
  exact hfuel l.length l

/-- Such a task does what it does when it runs alone. -/
theorem wp_of_quiet {I : ε → σ → Prop} {G : σ → σ → Prop} {S : Q → δ → R → δ → Prop} {e : ε}
    {s : σ} (d : δ) {x : Co σ Q R α} {P : α → ε → σ → Prop} (hx : Quiet x)
    (h : ∀ a s', Runs S x ⟨s, d⟩ a ⟨s', d⟩ → P a e s') : Wp I G x P e s := by
  induction x generalizing s with
  | ret a => exact h a s ⟨rfl, rfl⟩
  | get k ih => exact ih s (hx s) h
  | set s₁ k ih => exact ih hx h
  | choose k ih => exact fun n => ih n (hx n) fun a s' hrun => h a s' ⟨n, hrun⟩
  | io qs ok k ih => exact hx.elim

/-- Such a task ends where it starts. -/
theorem done_of_quiet {x : Co σ Q R α} {s s' : σ} {th : Thread σ Q R α} (hx : Quiet x)
    (h : Reaches x s th s') : ∃ a, th = .done a := by
  induction x generalizing s with
  | ret a => exact ⟨a, h.1⟩
  | get k ih => exact ih s (hx s) h
  | set s₁ k ih => exact ih hx h
  | choose k ih =>
    obtain ⟨n, h⟩ := h
    exact ih n (hx n) h
  | io qs ok k ih => exact hx.elim

/-- Such a task has a run, whoever would serve it. -/
theorem exists_run_of_quiet {S : Q → δ → R → δ → Prop} {x : Co σ Q R α} (hx : Quiet x)
    (w : World σ δ) : ∃ a w', Runs S x w a w' := by
  induction x generalizing w with
  | ret a => exact ⟨a, w, rfl, rfl⟩
  | get k ih => exact ih w.c (hx w.c) w
  | set s k ih => exact ih hx ⟨s, w.d⟩
  | choose k ih =>
    obtain ⟨a, w', hrun⟩ := ih 0 (hx 0) w
    exact ⟨a, w', 0, hrun⟩
  | io qs ok k ih => exact hx.elim

/-! ### Pools of tasks -/

/-- Whatever happens while the task waits, it goes on as its `Wp` says, to end in `P`. -/
def Awaits (I : ε → σ → Prop) (G : σ → σ → Prop) (P : α → ε → σ → Prop) (th : Thread σ Q R α)
    (s : σ) : Prop :=
  match th with
  | .waiting _ _ k => ∀ rs e' s', I e' s' → G s s' → Wp I G (k rs) P e' s'
  | .done _ => True

section

variable {I : ε → σ → Prop} {G : σ → σ → Prop} (hrefl : ∀ s, G s s)
  (htrans : ∀ s₁ s₂ s₃, G s₁ s₂ → G s₂ s₃ → G s₁ s₃)

include htrans in
theorem Awaits.later {P : α → ε → σ → Prop} {th : Thread σ Q R α} {s s' : σ}
    (h : Awaits I G P th s) (hG : G s s') : Awaits I G P th s' := by
  cases th with
  | done a => trivial
  | waiting sent ok k => exact fun rs e' s'' hI hG' => h rs e' s'' hI (htrans _ _ _ hG hG')

include hrefl in
/-- A task that is as far as an await left `I` there; one that is done left what it should. -/
theorem awaits_of_reaches {P : α → ε → σ → Prop} {x : Co σ Q R α} {e : ε} {s s' : σ}
    {th : Thread σ Q R α} (hwp : Wp I G x P e s) (h : Reaches x s th s') :
    Awaits I G P th s' ∧ (∀ a, th = .done a → P a e s') ∧ ((∀ a, th ≠ .done a) → I e s') := by
  induction x generalizing s with
  | ret a =>
    obtain ⟨hth, hs⟩ := h
    rw [hth, hs]
    refine ⟨trivial, ?_, fun hnot => absurd rfl (hnot a)⟩
    intro b hb
    rw [← Thread.done.inj hb]
    exact hwp
  | get k ih => exact ih s hwp h
  | set s₁ k ih => exact ih hwp h
  | choose k ih =>
    obtain ⟨n, h⟩ := h
    exact ih n (hwp n) h
  | io qs ok k ih =>
    cases qs with
    | nil => exact ih [] (hwp.2 [] e s hwp.1 (hrefl s)) h
    | cons q qs =>
      obtain ⟨hth, hs⟩ := h
      rw [hth, hs]
      exact ⟨hwp.2, fun a ha => by simp at ha, fun _ => hwp.1⟩

include hrefl htrans

/-- One step of a pool whose tasks are to end in a `P` of their own. -/
theorem moves_outcome {S : Q → δ → R → δ → Prop} {prog : τ → Co σ Q R α} {m : Move τ} {e : ε}
    {P : τ → α → ε → σ → Prop} {p p' : Pool τ σ δ Q R α} (hI : I e p.world.c)
    (hthreads : ∀ x ∈ p.threads, Awaits I G (P x.1) x.2 p.world.c)
    (hstart : ∀ t, m = .start t → Wp I G (prog t) (P t) e p.world.c)
    (hmove : Moves S prog m p p') (hG : G p.world.c p'.world.c) :
    (∀ x ∈ p'.threads, Awaits I G (P x.1) x.2 p'.world.c) ∧
      (∀ x, finished m p p' = some x → P x.1 x.2 e p'.world.c) ∧
      (finished m p p' = none → I e p'.world.c) := by
  cases hmove with
  | @start w ths loose t th s' hreach =>
    obtain ⟨hwait, hdone, hnot⟩ := awaits_of_reaches hrefl (hstart _ rfl) hreach
    refine ⟨?_, ?_, ?_⟩
    · intro x hx
      rcases List.mem_append.mp hx with hx | hx
      · exact (hthreads x hx).later htrans hG
      · rw [List.mem_singleton.mp hx]
        exact hwait
    · intro x hx
      cases th with
      | waiting sent ok k => simp [finished, Move.place] at hx
      | done a =>
        simp only [finished, Move.place, List.getElem?_concat_length, Option.some.injEq] at hx
        rw [← hx]
        exact hdone a rfl
    · intro hx
      cases th with
      | waiting sent ok k => exact hnot (by simp)
      | done a => simp [finished, Move.place] at hx
  | @serve w pre post loose t before after q r ok k d' hs =>
    refine ⟨?_, by simp [finished, Move.place], fun _ => hI⟩
    intro x hx
    rcases List.mem_append.mp hx with hx | hx
    · exact hthreads x (List.mem_append_left _ hx)
    · rcases List.mem_cons.mp hx with hx | hx
      · rw [hx]
        exact hthreads (t, .waiting (before ++ (q, none) :: after) ok k) (by simp)
      · exact hthreads x (List.mem_append_right _ (List.mem_cons_of_mem _ hx))
  | @resume w pre post loose t sent rs ok k th s' hheard hreach =>
    have hwait := hthreads (t, .waiting sent ok k) (by simp)
    obtain ⟨hwait', hdone, hnot⟩ :=
      awaits_of_reaches hrefl (hwait rs e w.c hI (hrefl _)) hreach
    refine ⟨?_, ?_, ?_⟩
    · intro x hx
      rcases List.mem_append.mp hx with hx | hx
      · exact (hthreads x (List.mem_append_left _ hx)).later htrans hG
      · rcases List.mem_cons.mp hx with hx | hx
        · rw [hx]
          exact hwait'
        · exact (hthreads x (List.mem_append_right _ (List.mem_cons_of_mem _ hx))).later
            htrans hG
    · intro x hx
      cases th with
      | waiting sent ok k => simp [finished, Move.place] at hx
      | done a =>
        simp only [finished, Move.place, List.getElem?_append_right, Nat.le_refl, Nat.sub_self,
          List.getElem?_cons_zero, Option.some.injEq] at hx
        rw [← hx]
        exact hdone a rfl
    · intro hx
      cases th with
      | waiting sent ok k => exact hnot (by simp)
      | done a => simp [finished, Move.place] at hx
  | settle _ => exact ⟨hthreads, by simp [finished, Move.place], fun _ => hI⟩

/-- The invariant of a pool whose tasks leave it at every await and at the end. -/
structure PoolInv (I : ε → σ → Prop) (G : σ → σ → Prop) (e : ε) (p : Pool τ σ δ Q R α) : Prop where
  state : I e p.world.c
  parked : ∀ x ∈ p.threads, Awaits I G (fun _ => I) x.2 p.world.c

/-- One step of such a pool, if what it does to the state is within `G`. -/
theorem moves_sound {S : Q → δ → R → δ → Prop} {prog : τ → Co σ Q R α} {m : Move τ} {e : ε}
    {p p' : Pool τ σ δ Q R α} (hinv : PoolInv I G e p)
    (hstart : ∀ t, m = .start t → Wp I G (prog t) (fun _ => I) e p.world.c)
    (hmove : Moves S prog m p p') (hG : G p.world.c p'.world.c) : PoolInv I G e p' := by
  obtain ⟨hthreads, hended, hgoes⟩ := moves_outcome (P := fun _ _ => I) hrefl htrans hinv.state
    hinv.parked hstart hmove hG
  refine ⟨?_, hthreads⟩
  cases hfin : finished m p p' with
  | none => exact hgoes hfin
  | some x => exact hended x hfin

end

/-! ### Tasks that leave a part of the state alone -/

/-- What `f` sees of the state is the same at every await and at the end. -/
def Preserves (f : σ → ε) (x : Co σ Q R α) : Prop :=
  ∀ s, Wp (fun e s => f s = e) (fun _ _ => True) x (fun _ e s => f s = e) (f s) s

section

variable {f : σ → ε}

theorem preserves_bind {x : Co σ Q R α} {g : α → Co σ Q R β} (hx : Preserves f x)
    (hg : ∀ a, Preserves f (g a)) : Preserves f (x.bind g) := by
  intro s
  rw [wp_bind]
  refine wp_mono ?_ (hx s)
  intro a e s' he
  rw [← he]
  exact hg a s'

theorem preserves_ret (a : α) : Preserves f (ret a : Co σ Q R α) := fun _ => rfl

theorem preserves_read : Preserves f (read : Co σ Q R σ) := fun _ => rfl

theorem preserves_modify {g : σ → σ} (h : ∀ s, f (g s) = f s) :
    Preserves f (modify g : Co σ Q R Unit) := h

theorem preserves_draw : Preserves f (draw : Co σ Q R Nat) := fun _ _ => rfl

theorem preserves_call [Inhabited R] (q : Q) : Preserves f (call q : Co σ Q R R) :=
  fun _ => ⟨rfl, fun _ _ _ he _ => he⟩

theorem preserves_callAll (ok : Q → R → Bool) (qs : List Q) :
    Preserves f (callAll ok qs : Co σ Q R (List R)) :=
  fun _ => ⟨rfl, fun _ _ _ he _ => he⟩

theorem preserves_shuffle (l : List α) : Preserves f (shuffle l : Co σ Q R (List α)) :=
  fun _ => wp_shuffle fun _ _ => rfl

theorem preserves_ite {c : Prop} [Decidable c] {x y : Co σ Q R α} (hx : Preserves f x)
    (hy : Preserves f y) : Preserves f (if c then x else y) := by
  by_cases h : c
  · rw [if_pos h]
    exact hx
  · rw [if_neg h]
    exact hy

/-- Its turn in a task that goes on. -/
theorem Preserves.wp {x : Co σ Q R α} (h : Preserves f x) {P : α → ε → σ → Prop} {e : ε} {s : σ}
    (he : f s = e) (hP : ∀ a s', P a (f s') s') :
    Wp (fun e s => f s = e) (fun _ _ => True) x P e s := by
  rw [← he]
  refine wp_mono ?_ (h s)
  intro a e' s' he'
  rw [← he']
  exact hP a s'

end

end Co
end IowarpCore
