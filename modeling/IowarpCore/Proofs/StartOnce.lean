/-
A task is started once, and the container that is charged for it is the one that is
relieved.

The trace of a run is its account: which containers' `Run` was called for a task, and what
was added to which container's work.  A task that was not started has no entries, a
suspended one has one start and one charge to the container it is on, and a task that has
returned has been taken off the same container's account.

`Settled` adds to `Regular` what this needs: when a suspended task goes on, the container
that is found for it is the one it is on, and no answer from another node ends a task of
this one, since `RecvOut` takes it off the account of a container that was never charged.
-/
import Mathlib.Algebra.Order.BigOperators.Group.Finset
import Mathlib.Algebra.BigOperators.Group.Finset.Piecewise
import Mathlib.Algebra.Order.Ring.Int
import IowarpCore.Proofs.WaitSet

namespace IowarpCore
namespace Runtime

open State

/-! ### Accounts -/

/-- The containers whose `Run` was called for a task. -/
def runsOf (t : TaskId) (trace : List Observation) : List Container :=
  trace.filterMap fun
    | .run t' c => if t' = t then some c else none
    | _ => none

/-- What a task added to the work of containers. -/
def worksOf (t : TaskId) (trace : List Observation) : List (Container × Int) :=
  trace.filterMap fun
    | .updateWork t' c increment => if t' = t then some (c, increment) else none
    | _ => none

/-- What was added to the work of a container. -/
def worksOn (c : Container) (trace : List Observation) : List Int :=
  trace.filterMap fun
    | .updateWork _ c' increment => if c' = c then some increment else none
    | _ => none

/-- What the account of a task has, as far as the task has come. -/
structure Status (task : Task) (runs : List Container) (works : List (Container × Int)) :
    Prop where
  periodic : task.header.period ≠ none → works = []
  fresh : task.header.period = none → task.started = false → runs = [] ∧ works = []
  suspended : task.header.period = none → task.started = true → task.ctx.coroHandle ≠ none →
    ∃ c, task.ctx.container = some c ∧ runs = [c] ∧ works = [(c, 1)]
  finished : task.header.period = none → task.started = true → task.ctx.coroHandle = none →
    ∃ c, runs = [c] ∧ works = [(c, 1), (c, -1)]

/-- The accounts of all tasks but one. -/
structure Accounts (s : State) (out : TaskId → Prop) : Prop where
  total : ∀ c, s.work c = (worksOn c s.trace).sum
  unborn : ∀ t, s.next ≤ t → runsOf t s.trace = [] ∧ worksOf t s.trace = []
  status : ∀ t < s.next, ¬out t → Status (s.task t) (runsOf t s.trace) (worksOf t s.trace)

/-- What the account of a task is about. -/
def account (task : Task) : Option ℚ × Bool × Bool × Option Container :=
  (task.header.period, task.started, task.ctx.coroHandle.isSome, task.ctx.container)

variable {runs : List Container} {task : Task} {works : List (Container × Int)}

theorem Status.congr {task' : Task}
    (h : Status task runs works) (heq : account task' = account task) :
    Status task' runs works := by
  unfold account at heq
  simp only [Prod.mk.injEq] at heq
  obtain ⟨hperiod, hstarted, hcoro, hcontainer⟩ := heq
  have hnone : task'.ctx.coroHandle = none ↔ task.ctx.coroHandle = none := by
    rw [← Option.isNone_iff_eq_none, ← Option.isNone_iff_eq_none, ← Option.not_isSome, hcoro,
      Option.not_isSome]
  refine ⟨?_, ?_, ?_, ?_⟩
  · rw [hperiod]
    exact h.periodic
  · rw [hperiod, hstarted]
    exact h.fresh
  · rw [hperiod, hstarted, ne_eq, hnone, hcontainer]
    exact h.suspended
  · rw [hperiod, hstarted, hnone]
    exact h.finished

/-- A task that was not started has no entries, wherever it is. -/
theorem Status.unstarted {task' : Task} (h : Status task runs works)
    (hperiod : task'.header.period = task.header.period) (hstarted : task.started = false)
    (hstarted' : task'.started = false) : Status task' runs works := by
  refine ⟨?_, ?_, ?_, ?_⟩
  · rw [hperiod]
    exact h.periodic
  · rw [hperiod]
    intro hnone _
    exact h.fresh hnone hstarted
  · rw [hstarted']
    simp
  · rw [hstarted']
    simp

section

variable {L : Layout} {w : WorkerId} {s s' : State} {t : TaskId} {out : TaskId → Prop}

theorem runsOf_append (t : TaskId) (trace : List Observation) (o : Observation) :
    runsOf t (trace ++ [o]) = runsOf t trace ++ runsOf t [o] := by
  simp [runsOf]

theorem worksOf_append (t : TaskId) (trace : List Observation) (o : Observation) :
    worksOf t (trace ++ [o]) = worksOf t trace ++ worksOf t [o] := by
  simp [worksOf]

theorem worksOn_append (c : Container) (trace : List Observation) (o : Observation) :
    worksOn c (trace ++ [o]) = worksOn c trace ++ worksOn c [o] := by
  simp [worksOn]

/-- The books are the same, and so are the tasks they are about. -/
theorem Accounts.same (h : Accounts s out) (hnext : s'.next = s.next) (hwork : s'.work = s.work)
    (htrace : s'.trace = s.trace)
    (htask : ∀ t < s.next, ¬out t → account (s'.task t) = account (s.task t)) :
    Accounts s' out := by
  refine ⟨?_, ?_, ?_⟩
  · rw [hwork, htrace]
    exact h.total
  · rw [hnext, htrace]
    exact h.unborn
  · intro t ht hout
    rw [hnext] at ht
    rw [htrace]
    exact (h.status t ht hout).congr (htask t ht hout)

theorem Accounts.setTask {f : Task → Task} (h : Accounts s out)
    (hf : out t ∨ account (f (s.task t)) = account (s.task t)) : Accounts (s.setTask t f) out := by
  refine h.same rfl rfl rfl ?_
  intro t' _ hout
  by_cases heq : t' = t
  · subst heq
    rw [setTask_self]
    exact hf.resolve_left hout
  · rw [setTask_of_ne s t f heq]

/-- Something about a task that was not started. -/
theorem Accounts.setFresh {f : Task → Task} (h : Accounts s out)
    (hperiod : (f (s.task t)).header.period = (s.task t).header.period)
    (hstarted : (s.task t).started = false) (hstarted' : (f (s.task t)).started = false) :
    Accounts (s.setTask t f) out := by
  refine ⟨h.total, h.unborn, ?_⟩
  intro t' ht' hout
  by_cases heq : t' = t
  · subst heq
    rw [setTask_self]
    exact (h.status t' ht' hout).unstarted hperiod hstarted hstarted'
  · rw [setTask_of_ne s t f heq]
    exact h.status t' ht' hout

theorem Accounts.push (h : Accounts s out) (q : Queue) (t : TaskId) : Accounts (s.push q t) out :=
  h.same rfl rfl rfl fun _ _ _ => rfl

theorem Accounts.pop (h : Accounts s out) (q : Queue) : Accounts (s.pop q) out :=
  h.same rfl rfl rfl fun _ _ _ => rfl

theorem Accounts.mono {out' : TaskId → Prop} (h : Accounts s out) (hmono : ∀ t, out t → out' t) :
    Accounts s out' :=
  ⟨h.total, h.unborn, fun t ht hout => h.status t ht fun ho => hout (hmono t ho)⟩

/-- The task goes back among the others. -/
theorem Accounts.close (h : Accounts s (· = t)) (hstatus : t < s.next →
    Status (s.task t) (runsOf t s.trace) (worksOf t s.trace)) : Accounts s fun _ => False := by
  refine ⟨h.total, h.unborn, ?_⟩
  intro t' ht' _
  by_cases heq : t' = t
  · rw [heq] at ht' ⊢
    exact hstatus ht'
  · exact h.status t' ht' heq

/-- A new task starts with an empty account. -/
theorem Accounts.new {task : Task} {v : WorkerId} (h : Accounts s out)
    (hstarted : task.started = false) :
    Accounts (({ s with next := s.next + 1, task := Function.update s.task s.next task } :
      State).push (.lane v) s.next) out := by
  refine ⟨h.total, ?_, ?_⟩
  · intro t ht
    exact h.unborn t (Nat.le_of_succ_le ht)
  · intro t ht hout
    rcases Nat.lt_or_eq_of_le (Nat.le_of_lt_succ ht) with hlt | heq
    · rw [(untouched_new hlt).task]
      exact h.status t hlt hout
    · subst heq
      rw [push_task]
      dsimp only
      rw [Function.update_self]
      obtain ⟨hruns, hworks⟩ := h.unborn s.next (Nat.le_refl _)
      rw [push_trace, hruns, hworks]
      refine ⟨fun _ => rfl, fun _ _ => ⟨rfl, rfl⟩, ?_, ?_⟩
      · rw [hstarted]
        simp
      · rw [hstarted]
        simp

/-! ### What a coroutine leaves alone -/

/-- Between two states of one coroutine only subtasks are added. -/
structure Quiet (s s' : State) (t : TaskId) : Prop where
  born : t < s'.next
  period : (s'.task t).header.period = (s.task t).header.period
  started : (s'.task t).started = (s.task t).started
  container : (s'.task t).ctx.container = (s.task t).ctx.container
  runs : ∀ t', runsOf t' s'.trace = runsOf t' s.trace
  works : ∀ t', worksOf t' s'.trace = worksOf t' s.trace
  accounts : Accounts s (· = t) → Accounts s' (· = t)

theorem Quiet.refl (h : t < s.next) : Quiet s s t :=
  ⟨h, rfl, rfl, rfl, fun _ => rfl, fun _ => rfl, id⟩

variable {future : Option TaskId} {c : Container} {increment : Int}

/-- Nothing is booked when a `co_await` returns. -/
theorem accounts_awaitResume (h : Accounts s out) :
    Accounts (s.awaitResume t future) out := by
  cases future with
  | none => exact h
  | some f =>
    refine ⟨?_, ?_, ?_⟩
    · intro c
      rw [State.awaitResume, observe_trace, worksOn_append]
      simpa [worksOn] using h.total c
    · intro t' ht'
      rw [State.awaitResume, observe_trace, runsOf_append, worksOf_append]
      simpa [runsOf, worksOf] using h.unborn t' ht'
    · intro t' ht' hout
      rw [State.awaitResume, observe_trace, runsOf_append, worksOf_append]
      simpa [runsOf, worksOf] using h.status t' ht' hout

theorem runsOf_awaitResume (t' : TaskId) :
    runsOf t' (s.awaitResume t future).trace = runsOf t' s.trace := by
  cases future with
  | none => rfl
  | some f =>
    rw [State.awaitResume, observe_trace, runsOf_append]
    simp [runsOf]

theorem worksOf_awaitResume (t' : TaskId) :
    worksOf t' (s.awaitResume t future).trace = worksOf t' s.trace := by
  cases future with
  | none => rfl
  | some f =>
    rw [State.awaitResume, observe_trace, worksOf_append]
    simp [worksOf]

theorem accounts_suspend {frame : Frame} {us : ℚ} (h : Accounts s (· = t)) :
    Accounts (suspend t frame us s) (· = t) := by
  unfold suspend State.setCtx
  exact h.setTask (Or.inl rfl)

/-- **A coroutine books nothing.** -/
theorem quiet_runBody (body : Body) (slots : List (Option TaskId)) (hborn : t < s.next) :
    Quiet s (runBody L w t body slots s) t := by
  refine runBody_rule (P := fun _ _ s' => Quiet s s' t) (Q := fun s' => Quiet s s' t)
    ?_ ?_ (fun _ _ _ _ _ h => h) (fun _ _ _ _ _ h => h) ?_ ?_ ?_ body slots s (Quiet.refl hborn)
  · intro header body rest slots s' h
    rw [sendRuntimeClient_eq]
    have htask := (@untouched_new (L.clientMapTask s'.next) s' t (submitted w t header body) h.born).task
    refine ⟨Nat.lt_succ_of_lt h.born, ?_, ?_, ?_, h.runs, h.works, ?_⟩
    · rw [htask]
      exact h.period
    · rw [htask]
      exact h.started
    · rw [htask]
      exact h.container
    · intro haccounts
      exact (h.accounts haccounts).new rfl
  · intro i rest slots s' h _
    refine ⟨by simpa using h.born, by simpa using h.period, by simpa using h.started,
      by simpa using h.container, ?_, ?_, fun haccounts => accounts_awaitResume (h.accounts haccounts)⟩
    · intro t'
      rw [runsOf_awaitResume]
      exact h.runs t'
    · intro t'
      rw [worksOf_awaitResume]
      exact h.works t'
  · intro slots s' h
    exact ⟨h.born, by simpa using h.period, by simpa using h.started, by simpa using h.container,
      h.runs, h.works, fun haccounts => (h.accounts haccounts).setTask (Or.inl rfl)⟩
  · intro i rest slots s' h _
    exact ⟨h.born, by simpa [suspend] using h.period, by simpa [suspend] using h.started,
      by simpa [suspend] using h.container, h.runs, h.works,
      fun haccounts => accounts_suspend (h.accounts haccounts)⟩
  · intro us rest slots s' h
    exact ⟨h.born, by simpa [suspend] using h.period, by simpa [suspend] using h.started,
      by simpa [suspend] using h.container, h.runs, h.works,
      fun haccounts => accounts_suspend (h.accounts haccounts)⟩

/-- A coroutine that gave back control is suspended exactly if its context says so. -/
theorem yielded_runBody (body : Body) (slots : List (Option TaskId)) (hborn : t < s.next)
    (hidle : (s.task t).ctx.isYielded = false) :
    ((runBody L w t body slots s).task t).ctx.isYielded =
      ((runBody L w t body slots s).task t).ctx.coroHandle.isSome := by
  refine runBody_rule
    (P := fun _ _ s' => t < s'.next ∧ (s'.task t).ctx.isYielded = false)
    (Q := fun s' => (s'.task t).ctx.isYielded = (s'.task t).ctx.coroHandle.isSome)
    ?_ ?_ (fun _ _ _ _ _ h => h) (fun _ _ _ _ _ h => h) ?_ ?_ ?_ body slots s ⟨hborn, hidle⟩
  · rintro header body rest slots s' ⟨hlt, hs'⟩
    rw [sendRuntimeClient_eq]
    refine ⟨Nat.lt_succ_of_lt hlt, ?_⟩
    rw [(untouched_new hlt).task]
    exact hs'
  · intro i rest slots s' h _
    simpa using h
  · intro slots s' h
    simpa using h.2
  · intro i rest slots s' h _
    simp [suspend]
  · intro us rest slots s' h
    simp [suspend]

/-! ### Executing a task -/

/-- Work is booked on both sides. -/
theorem accounts_updateWork (h : Accounts s (· = t))
    (hborn : t < s.next) : Accounts (updateWork t c increment s) (· = t) := by
  refine ⟨?_, ?_, ?_⟩
  · intro c'
    unfold updateWork
    rw [observe_trace, worksOn_append, List.sum_append, ← h.total c', observe_work]
    dsimp only
    by_cases heq : c' = c
    · subst heq
      simp [worksOn]
    · rw [Function.update_of_ne heq]
      simp [worksOn, Ne.symm heq]
  · intro t' ht'
    have hne : ¬t = t' := fun heq => Nat.lt_irrefl _ (Nat.lt_of_lt_of_le hborn (heq ▸ ht'))
    unfold updateWork
    rw [observe_trace, runsOf_append, worksOf_append]
    simpa [runsOf, worksOf, hne] using h.unborn t' ht'
  · intro t' ht' hout
    have hne : ¬t = t' := fun heq => hout heq.symm
    unfold updateWork
    rw [observe_trace, runsOf_append, worksOf_append]
    simpa [runsOf, worksOf, hne] using h.status t' ht' hout

theorem worksOf_updateWork :
    worksOf t (updateWork t c increment s).trace = worksOf t s.trace ++ [(c, increment)] := by
  rw [updateWork, observe_trace, worksOf_append]
  simp [worksOf]

theorem runsOf_updateWork :
    runsOf t (updateWork t c increment s).trace = runsOf t s.trace := by
  rw [updateWork, observe_trace, runsOf_append]
  simp [runsOf]

theorem accounts_addToBlockedQueue (h : Accounts s out) : Accounts (addToBlockedQueue w t s) out := by
  unfold addToBlockedQueue
  split
  · exact (h.setTask (f := fun task => { task with
      ctx := { task.ctx with yieldCount := task.ctx.yieldCount + 1 } }) (Or.inr rfl)).push _ _
  · exact h.push _ _

theorem accounts_replyTask (h : Accounts s out) : Accounts (replyTask L w t s) out := by
  unfold replyTask
  split
  · exact h
  · split
    · exact h.push _ _
    · split
      · exact h.push _ _
      · exact h.setTask (Or.inr rfl)

/-- What is booked for a task whose coroutine has run. -/
structure Charged (s : State) (t : TaskId) (c : Container) : Prop where
  born : t < s.next
  started : (s.task t).started = true
  container : (s.task t).ctx.container = some c
  periodic : (s.task t).header.period ≠ none → worksOf t s.trace = []
  once : (s.task t).header.period = none →
    runsOf t s.trace = [c] ∧ worksOf t s.trace = [(c, 1)]

/-- A task that has returned is taken off the account it is on. -/
theorem accounts_endTask (h : Accounts s (· = t)) (hcharged : Charged s t c)
    (hcoro : (s.task t).ctx.coroHandle = none) :
    Accounts (endTask L w t s) fun _ => False := by
  unfold endTask
  rw [hcharged.container]
  dsimp only
  cases hperiod : (s.task t).header.period with
  | some period =>
    dsimp only
    unfold reschedulePeriodicTask
    refine accounts_addToBlockedQueue (Accounts.close (t := t) (h.setTask (Or.inl rfl)) ?_)
    intro _
    rw [setTask_self]
    refine ⟨fun _ => hcharged.periodic (by rw [hperiod]; simp), ?_, ?_, ?_⟩ <;>
      · intro hnone
        simp [hperiod] at hnone
  | none =>
    dsimp only
    refine accounts_replyTask ((accounts_updateWork h hcharged.born).close ?_)
    intro _
    obtain ⟨hruns, hworks⟩ := hcharged.once hperiod
    rw [runsOf_updateWork, worksOf_updateWork, hruns, hworks]
    refine ⟨?_, ?_, ?_, ?_⟩
    · intro hne
      exact absurd hperiod hne
    · intro _ hstarted
      rw [show (updateWork t c (-1) s).task t = s.task t from rfl, hcharged.started] at hstarted
      simp at hstarted
    · intro _ _ hne
      exact absurd hcoro hne
    · intro _ _ _
      exact ⟨c, rfl, rfl⟩

theorem accounts_settleTask (h : Accounts s (· = t)) (hcharged : Charged s t c)
    (hyielded : (s.task t).ctx.isYielded = (s.task t).ctx.coroHandle.isSome) :
    Accounts (settleTask L w t s) fun _ => False := by
  unfold settleTask
  cases hcoro : (s.task t).ctx.coroHandle with
  | none =>
    rw [hyielded, hcoro, if_neg (by simp)]
    exact accounts_endTask h hcharged hcoro
  | some frame =>
    rw [hyielded, hcoro, if_pos (by simp)]
    have hclose : Accounts s fun _ => False := by
      refine h.close fun _ => ⟨hcharged.periodic, ?_, ?_, ?_⟩
      · intro _ hstarted
        rw [hcharged.started] at hstarted
        simp at hstarted
      · intro hnone _ _
        exact ⟨c, hcharged.container, hcharged.once hnone⟩
      · intro _ _ hnone
        rw [hcoro] at hnone
        simp at hnone
    split
    · exact accounts_addToBlockedQueue hclose
    · exact hclose

/-- **Starting a task** charges the container it is started on. -/
theorem accounts_start (h : Accounts s fun _ => False) (hborn : t < s.next)
    (hstarted : (s.task t).started = false) (hidle : (s.task t).ctx.isYielded = false)
    (hcontainer : (s.task t).ctx.container ≠ none) :
    Accounts (execTask L w t false s) fun _ => False := by
  have hresolve : ∃ c, Accounts (resolveContainer L w t s) (fun _ => False) ∧
      (resolveContainer L w t s).next = s.next ∧
      ((resolveContainer L w t s).task t).ctx.container = some c ∧
      ((resolveContainer L w t s).task t).started = false ∧
      ((resolveContainer L w t s).task t).ctx.isYielded = false := by
    unfold resolveContainer
    split
    next c _ =>
      refine ⟨c, ?_, rfl, by simp, by simpa using hstarted, by simpa using hidle⟩
      exact h.setFresh (f := fun task => { task with
        ctx := { task.ctx with container := some c } }) rfl hstarted hstarted
    · obtain ⟨c, hc⟩ := Option.ne_none_iff_exists'.mp hcontainer
      exact ⟨c, h, rfl, hc, hstarted, hidle⟩
  obtain ⟨c, h₁, hnext₁, hcontainer₁, hstarted₁, hidle₁⟩ := hresolve
  unfold execTask runCoroutine
  generalize resolveContainer L w t s = s₁ at h₁ hnext₁ hcontainer₁ hstarted₁ hidle₁
  have hborn₁ : t < s₁.next := by
    rw [hnext₁]
    exact hborn
  have hstatus := h₁.status t hborn₁ id
  rw [if_neg (by simp)]
  unfold startCoroutine
  rw [hcontainer₁]
  dsimp only
  generalize hs₂ : (if (s₁.task t).header.period = none then updateWork t c 1 s₁ else s₁) = s₂
  have hbooked : Accounts s₂ (· = t) ∧ s₂.next = s₁.next ∧ s₂.task = s₁.task ∧
      runsOf t s₂.trace = runsOf t s₁.trace ∧
      ((s₁.task t).header.period ≠ none → worksOf t s₂.trace = []) ∧
      ((s₁.task t).header.period = none → worksOf t s₂.trace = [(c, 1)]) := by
    rw [← hs₂]
    split
    next hnone =>
      refine ⟨accounts_updateWork (h₁.mono (by simp)) hborn₁, rfl, rfl, runsOf_updateWork, ?_, ?_⟩
      · intro hne
        exact absurd hnone hne
      · intro _
        rw [worksOf_updateWork, (hstatus.fresh hnone hstarted₁).2]
        rfl
    next hsome => exact ⟨h₁.mono (by simp), rfl, rfl, rfl, hstatus.periodic, fun hn => absurd hn hsome⟩
  obtain ⟨h₂, hnext₂, htask₂, hruns₂, hperiodic₂, hplain₂⟩ := hbooked
  have h₃ : Accounts (s₂.observe (.run t c)) (· = t) := by
    refine ⟨?_, ?_, ?_⟩
    · intro c'
      rw [observe_trace, worksOn_append]
      simpa [worksOn] using h₂.total c'
    · intro t' ht'
      have hne : ¬t = t' := by
        intro heq
        rw [observe_next, hnext₂, ← heq] at ht'
        exact Nat.lt_irrefl _ (Nat.lt_of_lt_of_le hborn₁ ht')
      rw [observe_trace, runsOf_append, worksOf_append]
      simpa [runsOf, worksOf, hne] using h₂.unborn t' ht'
    · intro t' ht' hout
      have hne : ¬t = t' := fun heq => hout heq.symm
      rw [observe_trace, runsOf_append, worksOf_append]
      simpa [runsOf, worksOf, hne] using h₂.status t' ht' hout
  have hborn₃ : t < (s₂.observe (.run t c)).next := by
    rw [observe_next, hnext₂]
    exact hborn₁
  have hquiet := @quiet_runBody L w _ t (s₂.task t).body [] hborn₃
  have hyielded := @yielded_runBody L w _ t (s₂.task t).body [] hborn₃ (by
    rw [observe_task, htask₂]
    exact hidle₁)
  generalize runBody L w t (s₂.task t).body [] (s₂.observe (.run t c)) = s₄ at hquiet hyielded
  refine accounts_settleTask (c := c) ((hquiet.accounts h₃).setTask (Or.inl rfl))
    ⟨hquiet.born, by simp, ?_, ?_, ?_⟩ (by simpa using hyielded)
  · rw [setTask_self]
    dsimp only
    rw [hquiet.container, observe_task, htask₂]
    exact hcontainer₁
  · rw [setTask_self, setTask_trace]
    dsimp only
    rw [hquiet.period, hquiet.works, observe_task, htask₂, observe_trace, worksOf_append]
    simpa [worksOf] using hperiodic₂
  · rw [setTask_self, setTask_trace]
    dsimp only
    rw [hquiet.period, hquiet.works, hquiet.runs, observe_task, htask₂, observe_trace,
      worksOf_append, runsOf_append, hruns₂]
    intro hnone
    rw [hplain₂ hnone, (hstatus.fresh hnone hstarted₁).1]
    simp [runsOf, worksOf]

/-- **Resuming a task** books nothing until it has returned. -/
theorem accounts_resume (h : Accounts s fun _ => False) (hborn : t < s.next)
    (hstarted : (s.task t).started = true) (hcoro : (s.task t).ctx.coroHandle ≠ none)
    (hcontainer : (s.task t).ctx.container ≠ none)
    (hkept : ∀ c, available L w t s = some c → (s.task t).ctx.container = some c) :
    Accounts (execTask L w t true s) fun _ => False := by
  obtain ⟨c, hc⟩ := Option.ne_none_iff_exists'.mp hcontainer
  have hresolve : Accounts (resolveContainer L w t s) (fun _ => False) ∧
      (resolveContainer L w t s).next = s.next ∧
      (resolveContainer L w t s).task t = s.task t := by
    unfold resolveContainer
    split
    next c' hc' =>
      have heq := hkept c' hc'
      refine ⟨?_, rfl, ?_⟩
      · refine h.setTask (f := fun task => { task with
          ctx := { task.ctx with container := some c' } }) (Or.inr ?_)
        simp [account, heq]
      · rw [setCtx_self, ← heq]
    · exact ⟨h, rfl, rfl⟩
  obtain ⟨h₁, hnext₁, htask₁⟩ := hresolve
  unfold execTask runCoroutine
  generalize resolveContainer L w t s = s₁ at h₁ hnext₁ htask₁
  have hborn₁ : t < s₁.next := by
    rw [hnext₁]
    exact hborn
  have hstatus := h₁.status t hborn₁ id
  rw [htask₁] at hstatus
  rw [if_pos rfl]
  generalize hs₂ : (s₁.setCtx t fun ctx => { ctx with isYielded := false }) = s₂
  have h₂ : Accounts s₂ (· = t) := by
    rw [← hs₂]
    exact (h₁.mono (by simp)).setTask (f := fun task => { task with
      ctx := { task.ctx with isYielded := false } }) (Or.inl rfl)
  have htrace₂ : s₂.trace = s₁.trace := by rw [← hs₂]; rfl
  have htask₂ : s₂.task t = { s.task t with ctx := { (s.task t).ctx with isYielded := false } } := by
    rw [← hs₂, setCtx_self, htask₁]
  have hborn₂ : t < s₂.next := by
    rw [← hs₂]
    exact hborn₁
  obtain ⟨⟨slots, point⟩, hframe⟩ := Option.ne_none_iff_exists'.mp hcoro
  have hcoro₂ : (s₂.task t).ctx.coroHandle = some ⟨slots, point⟩ := by
    rw [htask₂]
    exact hframe
  have hrun : ∃ body slots s₃, resumeCoroutine L w t s₁ = runBody L w t body slots s₃ ∧
      Accounts s₃ (· = t) ∧ s₃.next = s₂.next ∧ s₃.task = s₂.task ∧
      runsOf t s₃.trace = runsOf t s₂.trace ∧ worksOf t s₃.trace = worksOf t s₂.trace := by
    unfold resumeCoroutine
    dsimp only
    rw [hs₂, hcoro₂]
    cases point with
    | coAwait i rest =>
      exact ⟨rest, slots.set i none, s₂.awaitResume t (slot slots i), rfl,
        accounts_awaitResume h₂, by simp, by simp, runsOf_awaitResume t, worksOf_awaitResume t⟩
    | yield us rest => exact ⟨rest, slots, s₂, rfl, h₂, rfl, rfl, rfl, rfl⟩
    | coReturn => exact ⟨_, slots, s₂, rfl, h₂, rfl, rfl, rfl, rfl⟩
    | submit header body rest => exact ⟨_, slots, s₂, rfl, h₂, rfl, rfl, rfl, rfl⟩
    | poll i complete pending => exact ⟨_, slots, s₂, rfl, h₂, rfl, rfl, rfl, rfl⟩
  obtain ⟨body, slots₃, s₃, heq, h₃, hnext₃, htask₃, hruns₃, hworks₃⟩ := hrun
  rw [heq]
  have hborn₃ : t < s₃.next := by
    rw [hnext₃]
    exact hborn₂
  have hquiet := @quiet_runBody L w s₃ t body slots₃ hborn₃
  have hyielded := @yielded_runBody L w s₃ t body slots₃ hborn₃ (by rw [htask₃, htask₂])
  refine accounts_settleTask (c := c) (hquiet.accounts h₃) ⟨hquiet.born, ?_, ?_, ?_, ?_⟩ hyielded
  · rw [hquiet.started, htask₃, htask₂]
    exact hstarted
  · rw [hquiet.container, htask₃, htask₂]
    exact hc
  · rw [hquiet.period, hquiet.works, htask₃, htask₂, hworks₃, htrace₂]
    exact hstatus.periodic
  · rw [hquiet.period, hquiet.works, hquiet.runs, htask₃, htask₂, hworks₃, hruns₃, htrace₂]
    intro hnone
    obtain ⟨c', hc', hbooked⟩ := hstatus.suspended hnone hstarted hcoro
    rw [hc] at hc'
    rw [Option.some.inj hc']
    exact hbooked

/-! ### Routing -/

theorem accounts_route_fresh {route : Route} (h : Accounts s fun _ => False) (hborn : t < s.next)
    (hstarted : (s.task t).started = false) (hidle : (s.task t).ctx.isYielded = false)
    (hcontainer : (s.task t).routed = true → (s.task t).ctx.container ≠ none) :
    Accounts (routeAndExec L w t route false s) fun _ => False := by
  unfold routeAndExec routeTask
  by_cases hrouted : (s.task t).routed = true
  · rw [if_pos hrouted]
    exact accounts_start h hborn hstarted hidle (hcontainer hrouted)
  rw [if_neg hrouted]
  cases route with
  | unresolved => exact h
  | elsewhere => exact (h.push _ _).setTask (Or.inr rfl)
  | here dest =>
    have h₁ : Accounts (s.setTask t fun task => { task with routed := true }) fun _ => False :=
      h.setTask (Or.inr rfl)
    dsimp only
    unfold routeLocal
    cases havailable : available L w t (s.setTask t fun task => { task with routed := true }) with
    | none =>
      dsimp only
      rw [havailable]
      exact h₁.push _ _
    | some c =>
      have h₂ := h₁.setFresh (t := t) (f := fun task => { task with
        ctx := { task.ctx with container := some c } }) (by simp) (by simpa using hstarted)
        (by simpa using hstarted)
      dsimp only
      rw [havailable]
      dsimp only
      by_cases hdest : dest = w
      · rw [if_pos hdest]
        refine accounts_start h₂ hborn ?_ ?_ ?_ <;> simp [*]
      · rw [if_neg hdest]
        exact h₂.push _ _

theorem accounts_route_yielding {route : Route} (h : Accounts s fun _ => False) (hborn : t < s.next)
    (hstarted : (s.task t).started = true) (hcoro : (s.task t).ctx.coroHandle ≠ none)
    (hcontainer : (s.task t).ctx.container ≠ none)
    (hkept : ∀ c, available L w t s = some c → (s.task t).ctx.container = some c) :
    Accounts (routeAndExec L w t route true s) fun _ => False := by
  unfold routeAndExec routeTask
  by_cases hrouted : (s.task t).routed = true
  · rw [if_pos hrouted]
    exact accounts_resume h hborn hstarted hcoro hcontainer hkept
  rw [if_neg hrouted]
  cases route with
  | unresolved => exact h
  | elsewhere => exact (h.push _ _).setTask (Or.inr rfl)
  | here dest =>
    have h₁ : Accounts (s.setTask t fun task => { task with routed := true }) fun _ => False :=
      h.setTask (Or.inr rfl)
    have hsame : available L w t (s.setTask t fun task => { task with routed := true }) =
        available L w t s := by simp [available]
    dsimp only
    unfold routeLocal
    dsimp only
    rw [hsame]
    cases havailable : available L w t s with
    | none => exact h₁.push _ _
    | some c =>
      have heq := hkept c havailable
      have h₂ : Accounts ((s.setTask t fun task => { task with routed := true }).setCtx t
          fun ctx => { ctx with container := some c }) fun _ => False := by
        refine h₁.setTask (f := fun task => { task with
          ctx := { task.ctx with container := some c } }) (Or.inr ?_)
        simp [account, heq]
      dsimp only
      by_cases hdest : dest = w
      · rw [if_pos hdest]
        refine accounts_resume h₂ hborn (by simpa using hstarted) (by simpa using hcoro)
          (by simp) ?_
        intro c' hc'
        have hc'' : available L w t s = some c' := by
          rw [← hc']
          simp [available]
        rw [havailable] at hc''
        rw [setCtx_self]
        exact hc''
      · rw [if_neg hdest]
        exact h₂.push _ _

end

/-! ### The condition -/

/-- The container that is found for a suspended task, if any, is the one it is on. -/
def Kept (L : Layout) (w : WorkerId) (t : TaskId) (s : State) : Prop :=
  ∀ c ∈ available L w t s, (s.task t).ctx.container = some c

instance decidableKept (L : Layout) (w : WorkerId) (t : TaskId) (s : State) :
    Decidable (Kept L w t s) :=
  inferInstanceAs (Decidable (∀ c ∈ available L w t s, (s.task t).ctx.container = some c))

/-- What is asked of a step beside `Regular`. -/
def Keeps (L : Layout) : Act → State → Prop
  | .newTask w _, s => ∀ t ∈ (s.queue (.lane w)).head?, (s.task t).started = true → Kept L w t s
  | .event w, s => ∀ f ∈ (s.queue (.events w)).head?, ∀ p ∈ (s.task f).parent,
      (s.task p).ctx.coroHandle ≠ none → Kept L w p s
  | .periodic w i due _, s => due = true → ∀ t ∈ (s.queue (.periodic w i)).head?,
      (s.task t).started = true → Kept L w t s
  | .blocked w i, s => ∀ t ∈ (s.queue (.blocked w i)).head?,
      (s.task t).started = true → Kept L w t s
  | .recvOut n _, s => ∀ copy ∈ (s.queue (.sendOut n)).head?, ∀ t ∈ (s.task copy).origin,
      s.sendMap t ≠ some 1
  | _, _ => True

instance decidableKeeps (L : Layout) (a : Act) (s : State) : Decidable (Keeps L a s) :=
  match a with
  | .newTask w _ => inferInstanceAs (Decidable (∀ t ∈ (s.queue (.lane w)).head?,
      (s.task t).started = true → Kept L w t s))
  | .event w => inferInstanceAs (Decidable (∀ f ∈ (s.queue (.events w)).head?,
      ∀ p ∈ (s.task f).parent, (s.task p).ctx.coroHandle ≠ none → Kept L w p s))
  | .periodic w i due _ => inferInstanceAs (Decidable (due = true →
      ∀ t ∈ (s.queue (.periodic w i)).head?, (s.task t).started = true → Kept L w t s))
  | .blocked w i => inferInstanceAs (Decidable (∀ t ∈ (s.queue (.blocked w i)).head?,
      (s.task t).started = true → Kept L w t s))
  | .recvOut n _ => inferInstanceAs (Decidable (∀ copy ∈ (s.queue (.sendOut n)).head?,
      ∀ t ∈ (s.task copy).origin, s.sendMap t ≠ some 1))
  | .accept .. | .retry .. | .sendIn .. | .plug .. | .move .. => inferInstanceAs (Decidable True)

def Settled (L : Layout) (a : Act) (s : State) : Prop := Regular L a s ∧ Keeps L a s

instance decidableSettled (L : Layout) (a : Act) (s : State) : Decidable (Settled L a s) :=
  inferInstanceAs (Decidable (Regular L a s ∧ Keeps L a s))

/-! ### The queues -/

section

variable {L : Layout} {w : WorkerId} {s : State} {t : TaskId}

variable {route : Route}

theorem accounts_processNewTask (h : Accounts s fun _ => False) (horder : Orderly s)
    (hkeeps : Keeps L (.newTask w route) s) :
    Accounts (processNewTask L w route s) fun _ => False := by
  unfold processNewTask
  split
  · exact h
  next t rest hq =>
    have hmem : t ∈ s.queue (.lane w) := by simp [hq]
    have hborn := horder.tidy.existing _ t hmem
    have hpop := h.pop (.lane w)
    dsimp only
    split
    · exact hpop.setTask (Or.inr rfl)
    next c _ =>
      cases horder.queued rfl hmem with
      | fresh hstarted hcoro hidle hopen hworker hcontainer =>
        split
        · rw [setCtx_self]
          dsimp only
          rw [pop_task, hstarted]
          refine accounts_route_fresh (hpop.setTask (f := fun task => { task with
            ctx := { task.ctx with worker := some w } }) (Or.inr rfl)) hborn ?_ ?_ ?_
          · simpa using hstarted
          · simpa using hidle
          · simpa using fun hr => hcontainer rfl (Or.inr hr)
        · have hbegin : Accounts (beginTask w (some c) t (s.pop (.lane w))) fun _ => False :=
            hpop.setFresh rfl hstarted hstarted
          have htask : (beginTask w (some c) t (s.pop (.lane w))).task t = { s.task t with
              hasContext := true
              ctx := ⟨some c, some w, none, false, (s.task t).header.period.getD 0, 0⟩ } := by
            simp [beginTask]
          rw [htask]
          dsimp only
          rw [hstarted]
          refine accounts_route_fresh hbegin hborn ?_ ?_ ?_ <;> rw [htask]
          · exact hstarted
          · simp
      | yielding slots us rest' hwait hstarted hcoro hopen hworker hcontainer hrouted =>
        have hkept := hkeeps t (by simp [hq]) hstarted
        rw [if_pos (by simpa using hworker.1), setCtx_self]
        dsimp only
        rw [pop_task, hstarted]
        refine accounts_route_yielding (hpop.setTask (f := fun task => { task with
          ctx := { task.ctx with worker := some w } }) (Or.inr rfl)) hborn ?_ ?_ ?_ ?_
        · simpa using hstarted
        · simp [hcoro]
        · simpa using hcontainer
        · intro c' hc'
          rw [setCtx_self]
          exact hkept c' (by simpa [available] using hc')

theorem accounts_processEvent (h : Accounts s fun _ => False) (horder : Orderly s)
    (htime : Timely (.event w) s) (hkeeps : Keeps L (.event w) s) :
    Accounts (processEvent L w s) fun _ => False := by
  unfold processEvent
  split
  · exact h
  next f rest hq =>
    generalize hs₁ : (s.pop (.events w)).setTask f (fun task => { task with complete := true }) = s₁
    have h₁ : Accounts s₁ fun _ => False := by
      rw [← hs₁]
      exact (h.pop _).setTask (Or.inr rfl)
    have hfields : ∀ t', (s₁.task t').ctx = (s.task t').ctx ∧
        (s₁.task t').header = (s.task t').header ∧ (s₁.task t').parent = (s.task t').parent ∧
        (s₁.task t').started = (s.task t').started := by
      intro t'
      rw [← hs₁]
      by_cases heq : t' = f
      · rw [heq, setTask_self]
        exact ⟨rfl, rfl, rfl, rfl⟩
      · rw [setTask_of_ne _ _ _ heq]
        exact ⟨rfl, rfl, rfl, rfl⟩
    have hnext : s₁.next = s.next := by rw [← hs₁]; rfl
    dsimp only
    rw [(hfields f).2.2.1]
    split
    · exact h₁
    next p hp =>
      rw [(hfields p).1]
      split
      · exact h₁
      next hsome =>
        have hcoro : (s.task p).ctx.coroHandle ≠ none := by
          simpa using hsome
        have hkept := hkeeps f (by simp [hq]) p hp hcoro
        have hawaits := (htime f (by simp [hq]) p hp).resolve_left hcoro
        obtain ⟨slots, i, rest', hframe, _⟩ := awaited_eq_some hawaits
        have hborn := (horder.tidy.slots p _ hframe).1
        have haway := (horder.tidy.waiting p slots i rest' hframe).1
        cases horder.situated p hborn with
        | fresh q hqrun hmem' => exact absurd hmem' (haway q)
        | sent hmap hstarted hcoro' => exact absurd hcoro' hcoro
        | yielding q slots us rest hwait hmem' => exact absurd hmem' (haway q)
        | ended v hmem' => exact absurd hmem' (haway _)
        | done hcoro' => exact absurd hcoro' hcoro
        | awaiting g hstarted hawaits' hcomplete hfire hopen hworker hcontainer =>
          refine accounts_resume (h₁.setTask (f := fun task => { task with
            ctx := { task.ctx with isYielded := false } }) (Or.inr rfl)) ?_ ?_ ?_ ?_ ?_
          · rw [setCtx_next, hnext]
            exact hborn
          · simpa [(hfields p).2.2.2] using hstarted
          · simpa [(hfields p).1] using hcoro
          · simpa [(hfields p).1] using hcontainer
          · intro c hc
            rw [setCtx_self]
            dsimp only
            rw [(hfields p).1]
            refine hkept c ?_
            have hsame : available L w p s₁ = available L w p s := by
              unfold available
              rw [(hfields p).2.1, ← hs₁]
              rfl
            rw [← hsame]
            simpa [available] using hc

theorem accounts_processPeriodic {i : Fin 4} {due : Bool}
    (h : Accounts s fun _ => False) (horder : Orderly s)
    (hkeeps : Keeps L (.periodic w i due route) s) :
    Accounts (processPeriodic L w i due route s) fun _ => False := by
  unfold processPeriodic
  split
  · exact h
  next t rest hq =>
    have hmem : t ∈ s.queue (.periodic w i) := by simp [hq]
    have hborn := horder.tidy.existing _ t hmem
    have hpop := h.pop (.periodic w i)
    dsimp only
    split
    next hdue =>
      cases horder.queued rfl hmem with
      | fresh hstarted hcoro hidle hopen hworker hcontainer =>
        rw [pop_task, hstarted]
        refine accounts_route_fresh (hpop.setTask (Or.inr rfl)) hborn ?_ ?_ ?_ <;> simp [hstarted]
      | yielding slots us rest' hwait hstarted hcoro hopen hworker hcontainer hrouted =>
        have hkept := hkeeps hdue t (by simp [hq]) hstarted
        rw [pop_task, hstarted]
        refine accounts_route_yielding (hpop.setTask (Or.inr rfl)) hborn ?_ ?_ ?_ ?_
        · simpa using hstarted
        · simp [hcoro]
        · simpa using hcontainer
        · intro c hc
          rw [setTask_self]
          exact hkept c (by simpa [available] using hc)
    · exact hpop.push _ _

theorem accounts_processBlocked {i : Fin 4} (h : Accounts s fun _ => False) (horder : Orderly s)
    (hkeeps : Keeps L (.blocked w i) s) : Accounts (processBlocked L w i s) fun _ => False := by
  unfold processBlocked
  split
  · exact h
  next t rest hq =>
    have hmem : t ∈ s.queue (.blocked w i) := by simp [hq]
    have hborn := horder.tidy.existing _ t hmem
    have hpop := h.pop (.blocked w i)
    have hset : Accounts ((s.pop (.blocked w i)).setCtx t fun ctx =>
        { ctx with yieldCount := 0, isYielded := false }) fun _ => False :=
      hpop.setTask (f := fun task => { task with
        ctx := { task.ctx with yieldCount := 0, isYielded := false } }) (Or.inr rfl)
    dsimp only
    cases horder.queued rfl hmem with
    | fresh hstarted hcoro hidle hopen hworker hcontainer =>
      rw [pop_task, hstarted, if_neg (by simp)]
      refine accounts_start hset hborn ?_ ?_ ?_
      · simpa using hstarted
      · simp
      · simpa using hcontainer rfl (Or.inl rfl)
    | yielding slots us rest' hwait hstarted hcoro hopen hworker hcontainer hrouted =>
      have hkept := hkeeps t (by simp [hq]) hstarted
      rw [pop_task, hstarted, hcoro, if_neg (by simp)]
      refine accounts_resume hset hborn ?_ ?_ ?_ ?_
      · simpa using hstarted
      · simp [hcoro]
      · simpa using hcontainer
      · intro c hc
        rw [setCtx_self]
        exact hkept c (by simpa [available] using hc)

theorem accounts_processRetry (h : Accounts s fun _ => False) (horder : Orderly s) :
    Accounts (processRetry L w route s) fun _ => False := by
  unfold processRetry
  split
  · exact h
  next t rest hq =>
    have hmem : t ∈ s.queue (.retry w) := by simp [hq]
    have hborn := horder.tidy.existing _ t hmem
    have hpop := h.pop (.retry w)
    cases horder.queued rfl hmem with
    | yielding slots us rest' hwait => simp [Queue.isWait] at hwait
    | fresh hstarted hcoro hidle hopen hworker hcontainer =>
      dsimp only
      split
      · split
        · exact hpop.push _ _
        next c _ =>
          refine accounts_start (hpop.setFresh (f := fun task => { task with
            ctx := { task.ctx with container := some c } }) rfl hstarted hstarted) hborn ?_ ?_ ?_
          · simpa using hstarted
          · simpa using hidle
          · simp
      · exact (hpop.push _ _).setTask (Or.inr rfl)

/-! ### The network -/

theorem accounts_arrived (arrived : List WorkerId) : ∀ {s : State}, Accounts s (fun _ => False) →
    Accounts (arrived.foldl (recvIn t) s) fun _ => False := by
  induction arrived with
  | nil =>
    intro s h
    exact h
  | cons w arrived ih =>
    intro s h
    refine ih ?_
    unfold recvIn State.setTask
    exact h.new rfl

theorem accounts_sendIn {n : NodeId} {replicas : Nat} {arrived : List WorkerId}
    (h : Accounts s fun _ => False) : Accounts (sendIn n replicas arrived s) fun _ => False := by
  unfold sendIn
  split
  · exact h
  · exact accounts_arrived arrived ((h.pop (.sendIn n)).same rfl rfl rfl fun _ _ _ => rfl)

theorem accounts_recvOut {n : NodeId} (h : Accounts s fun _ => False)
    (hkeeps : Keeps L (.recvOut n w) s) : Accounts (recvOut L n w s) fun _ => False := by
  unfold recvOut
  split
  · exact h
  next copy rest hq =>
    dsimp only
    split
    · exact h.pop _
    next t horigin =>
      have hne := hkeeps copy (by simp [hq]) t horigin
      split
      · exact h.pop _
      · exact h.pop _
      next hone => exact absurd hone hne
      · exact (h.pop (.sendOut n)).same rfl rfl rfl fun _ _ _ => rfl

/-! ### Runs -/

theorem accounts_init (container : NodeId → Address → Option Container) :
    Accounts (State.init container) fun _ => False := by
  refine ⟨?_, ?_, ?_⟩ <;> simp [State.init, worksOn, runsOf, worksOf]

/-- **One step** keeps the books. -/
theorem accounts_step {a : Act} (h : Accounts s fun _ => False) (horder : Orderly s)
    (hsettled : Settled L a s) : Accounts (step L a s) fun _ => False := by
  obtain ⟨hregular, hkeeps⟩ := hsettled
  cases a with
  | accept w header body => exact h.new rfl
  | newTask w route => exact accounts_processNewTask h horder hkeeps
  | event w => exact accounts_processEvent h horder hregular hkeeps
  | periodic w i due route => exact accounts_processPeriodic h horder hkeeps
  | blocked w i => exact accounts_processBlocked h horder hkeeps
  | retry w route => exact accounts_processRetry h horder
  | sendIn n replicas arrived => exact accounts_sendIn h
  | recvOut n w => exact accounts_recvOut h hkeeps
  | plug c plugged => exact h.same rfl rfl rfl fun _ _ _ => rfl
  | move n address c => exact h.same rfl rfl rfl fun _ _ _ => rfl

end

/-! ### What is left to do on a container -/

/-- What a task added to the work of one container. -/
def contribution (c : Container) (works : List (Container × Int)) : Int :=
  (works.map fun entry => if entry.1 = c then entry.2 else 0).sum

/-- The work of a container is what all tasks together added to it. -/
theorem sum_worksOn (c : Container) (n : Nat) : ∀ (trace : List Observation),
    (∀ t, n ≤ t → worksOf t trace = []) →
    (worksOn c trace).sum =
      Finset.sum (Finset.range n) fun t => contribution c (worksOf t trace) := by
  intro trace
  induction trace with
  | nil =>
    intro _
    simp [worksOn, worksOf, contribution]
  | cons o trace ih =>
    intro hnone
    have hrest : ∀ t, n ≤ t → worksOf t trace = [] := by
      intro t ht
      have hfirst := hnone t ht
      rw [show o :: trace = [o] ++ trace from rfl, worksOf, List.filterMap_append,
        List.append_eq_nil_iff] at hfirst
      exact hfirst.2
    have hsum := ih hrest
    cases o with
    | run t c' =>
      simp only [worksOn, worksOf, List.filterMap_cons] at hsum ⊢
      exact hsum
    | returned t f complete =>
      simp only [worksOn, worksOf, List.filterMap_cons] at hsum ⊢
      exact hsum
    | updateWork t₀ c' increment =>
      have hlt : t₀ < n := by
        by_contra hge
        have hfirst := hnone t₀ (Nat.le_of_not_lt hge)
        simp [worksOf] at hfirst
      have hsplit : ∀ t, contribution c (worksOf t (.updateWork t₀ c' increment :: trace)) =
          (if t₀ = t then (if c' = c then increment else 0) else 0) +
            contribution c (worksOf t trace) := by
        intro t
        by_cases heq : t₀ = t
        · simp [worksOf, contribution, heq]
        · simp [worksOf, contribution, heq]
      have hhead : (worksOn c (.updateWork t₀ c' increment :: trace)).sum =
          (if c' = c then increment else 0) + (worksOn c trace).sum := by
        by_cases heq : c' = c
        · simp [worksOn, heq]
        · simp [worksOn, heq]
      rw [hhead, hsum, Finset.sum_congr rfl fun t _ => hsplit t, Finset.sum_add_distrib,
        Finset.sum_ite_eq, if_pos (Finset.mem_range.mpr hlt)]

/-- A task counts for a container while it is suspended there. -/
theorem Status.contribution (h : Status task runs works) (c : Container) :
    Runtime.contribution c works = 0 ∨ (Runtime.contribution c works = 1 ∧
      task.header.period = none ∧ task.ctx.coroHandle ≠ none ∧ task.ctx.container = some c) := by
  by_cases hperiod : task.header.period = none
  · cases hstarted : task.started with
    | false =>
      left
      rw [(h.fresh hperiod hstarted).2]
      rfl
    | true =>
      by_cases hcoro : task.ctx.coroHandle = none
      · left
        obtain ⟨c', _, hworks⟩ := h.finished hperiod hstarted hcoro
        rw [hworks]
        by_cases heq : c' = c <;> simp [Runtime.contribution, heq]
      · obtain ⟨c', hcontainer, _, hworks⟩ := h.suspended hperiod hstarted hcoro
        rw [hworks]
        by_cases heq : c' = c
        · right
          refine ⟨by simp [Runtime.contribution, heq], hperiod, hcoro, ?_⟩
          rw [hcontainer, heq]
        · left
          simp [Runtime.contribution, heq]
  · left
    rw [h.periodic hperiod]
    rfl

/-- Tasks are started once, and charged to and relieved from one container. -/
structure StartedOnce (s : State) : Prop where
  run : ∀ t, (s.task t).header.period = none → (runsOf t s.trace).length ≤ 1
  /-- The work of a task is added to one container and taken off the same one, and is off
  exactly when its coroutine has returned. -/
  paired : ∀ t, (s.task t).header.period = none → worksOf t s.trace = [] ∨
    ∃ c, runsOf t s.trace = [c] ∧ (((s.task t).ctx.coroHandle ≠ none ∧
      worksOf t s.trace = [(c, 1)]) ∨
      ((s.task t).ctx.coroHandle = none ∧ worksOf t s.trace = [(c, 1), (c, -1)]))
  nonneg : ∀ c, 0 ≤ s.work c
  /-- The work is gone when no task is suspended on the container. -/
  drained : ∀ c, (∀ t, (s.task t).header.period = none → (s.task t).ctx.coroHandle ≠ none →
    (s.task t).ctx.container ≠ some c) → s.work c = 0

theorem Accounts.startedOnce {s : State} (h : Accounts s fun _ => False) : StartedOnce s := by
  have hwork : ∀ c, s.work c =
      Finset.sum (Finset.range s.next) fun t => contribution c (worksOf t s.trace) := by
    intro c
    rw [h.total c]
    exact sum_worksOn c s.next s.trace fun t ht => (h.unborn t ht).2
  refine ⟨?_, ?_, ?_, ?_⟩
  · intro t hperiod
    rcases Nat.lt_or_ge t s.next with hlt | hge
    · have hstatus := h.status t hlt id
      cases hstarted : (s.task t).started with
      | false =>
        rw [(hstatus.fresh hperiod hstarted).1]
        simp
      | true =>
        by_cases hcoro : (s.task t).ctx.coroHandle = none
        · obtain ⟨c, hruns, _⟩ := hstatus.finished hperiod hstarted hcoro
          rw [hruns]
          simp
        · obtain ⟨c, _, hruns, _⟩ := hstatus.suspended hperiod hstarted hcoro
          rw [hruns]
          simp
    · rw [(h.unborn t hge).1]
      simp
  · intro t hperiod
    rcases Nat.lt_or_ge t s.next with hlt | hge
    · have hstatus := h.status t hlt id
      cases hstarted : (s.task t).started with
      | false => exact Or.inl (hstatus.fresh hperiod hstarted).2
      | true =>
        right
        by_cases hcoro : (s.task t).ctx.coroHandle = none
        · obtain ⟨c, hruns, hworks⟩ := hstatus.finished hperiod hstarted hcoro
          exact ⟨c, hruns, Or.inr ⟨hcoro, hworks⟩⟩
        · obtain ⟨c, _, hruns, hworks⟩ := hstatus.suspended hperiod hstarted hcoro
          exact ⟨c, hruns, Or.inl ⟨hcoro, hworks⟩⟩
    · exact Or.inl (h.unborn t hge).2
  · intro c
    rw [hwork c]
    refine Finset.sum_nonneg ?_
    intro t ht
    rcases (h.status t (Finset.mem_range.mp ht) id).contribution c with hzero | ⟨hone, _⟩
    · rw [hzero]
    · rw [hone]
      decide
  · intro c hnone
    rw [hwork c]
    refine Finset.sum_eq_zero ?_
    intro t ht
    rcases (h.status t (Finset.mem_range.mp ht) id).contribution c with hzero | ⟨_, hp, hcoro, hc⟩
    · exact hzero
    · exact absurd hc (hnone t hp hcoro)

/--
**A task is started once.**  In every state of a run whose steps are settled, `Run` was
called at most once for every task that is not periodic, its work is charged to and taken
off one container, no container's work is negative, and it is zero when nothing is suspended
there.
-/
theorem startedOnce_of_settled {L : Layout} {container : NodeId → Address → Option Container}
    {acts : List Act} {s : State} (hrun : Runs L (Settled L) acts (State.init container) s) :
    StartedOnce s := by
  have hboth : Orderly s ∧ Accounts s fun _ => False := by
    refine hrun.invariant (I := fun s => Orderly s ∧ Accounts s fun _ => False) ?_
      ⟨orderly_init container, accounts_init container⟩
    intro a _ s s' h hstep
    rw [hstep.2]
    exact ⟨orderly_step h.1 hstep.1.1, accounts_step h.2 h.1 hstep.1⟩
  exact hboth.2.startedOnce

theorem startedOnce_of_settled_yield :
    StartedOnce (run oneWorker (startAll (twoSubtasks .coReturn (.yield 100 .coReturn)) ++
      [.event 0, .periodic 0 1 true (.here 0), .event 0]) (State.init fun _ _ => some 0)) :=
  startedOnce_of_settled (runs_of_meets _ (by decide +kernel))

/-- A task wakes up while its container is plugged, and is started again when it is not. -/
theorem started_again :
    ¬∀ acts s, Runs oneWorker (fun _ _ => True) acts (State.init fun _ _ => some 0) s →
      StartedOnce s := by
  intro h
  have honce := h _ _ (runs_of_meets (C := fun _ _ => True)
    [.accept 0 plain (.yield 100 .coReturn), .newTask 0 (.here 0), .plug 0 true,
      .periodic 0 1 true (.here 0), .plug 0 false, .retry 0 (.here 0)] (by decide +kernel))
  exact absurd (honce.run 0 (by decide +kernel)) (by decide +kernel)

end Runtime
end IowarpCore
