/-
What a worker keeps in order.

A task is in at most one queue, and a task that waits for a future is in none.  The second
half needs that an event finds its parent at the `co_await` of the very future it tells
about (`Timely`): otherwise a task that yields is resumed by an event while its entry stays
in the periodic queue.

`runBody_rule` is the rule for coroutines: what submitting and awaiting preserve holds when
the coroutine suspends or returns.
-/
import IowarpCore.Lib.Along
import IowarpCore.Runtime.Worker

namespace IowarpCore
namespace Runtime

open State

/-! ### The parts of a state -/

namespace State

variable (s : State) (t : TaskId) (f : Task → Task) (g : RunContext → RunContext) (q : Queue)
  (o : Observation) (future : Option TaskId)

@[simp] theorem setTask_container : (s.setTask t f).container = s.container := rfl
@[simp] theorem setTask_plugged : (s.setTask t f).plugged = s.plugged := rfl
@[simp] theorem setTask_trace : (s.setTask t f).trace = s.trace := rfl
@[simp] theorem setTask_self : (s.setTask t f).task t = f (s.task t) := by simp [setTask]

theorem setTask_of_ne {t' : TaskId} (h : t' ≠ t) : (s.setTask t f).task t' = s.task t' := by
  simp [setTask, h]

@[simp] theorem setCtx_next : (s.setCtx t g).next = s.next := rfl
@[simp] theorem setCtx_container : (s.setCtx t g).container = s.container := rfl
@[simp] theorem setCtx_plugged : (s.setCtx t g).plugged = s.plugged := rfl
@[simp] theorem setCtx_self :
    (s.setCtx t g).task t = { s.task t with ctx := g (s.task t).ctx } := by simp [setCtx]

theorem setCtx_of_ne {t' : TaskId} (h : t' ≠ t) : (s.setCtx t g).task t' = s.task t' :=
  s.setTask_of_ne t _ h

@[simp] theorem push_task : (s.push q t).task = s.task := rfl
@[simp] theorem push_container : (s.push q t).container = s.container := rfl
@[simp] theorem push_plugged : (s.push q t).plugged = s.plugged := rfl
@[simp] theorem push_trace : (s.push q t).trace = s.trace := rfl
@[simp] theorem push_queue_self : (s.push q t).queue q = s.queue q ++ [t] := by simp [push]

theorem push_queue_of_ne {q' : Queue} (h : q' ≠ q) : (s.push q t).queue q' = s.queue q' := by
  simp [push, h]

@[simp] theorem pop_task : (s.pop q).task = s.task := rfl
@[simp] theorem pop_container : (s.pop q).container = s.container := rfl
@[simp] theorem pop_plugged : (s.pop q).plugged = s.plugged := rfl
@[simp] theorem pop_queue_self : (s.pop q).queue q = (s.queue q).tail := by simp [pop]

theorem pop_queue_of_ne {q' : Queue} (h : q' ≠ q) : (s.pop q).queue q' = s.queue q' := by
  simp [pop, h]

@[simp] theorem observe_next : (s.observe o).next = s.next := rfl
@[simp] theorem observe_task : (s.observe o).task = s.task := rfl
@[simp] theorem observe_container : (s.observe o).container = s.container := rfl
@[simp] theorem observe_plugged : (s.observe o).plugged = s.plugged := rfl
@[simp] theorem observe_work : (s.observe o).work = s.work := rfl
@[simp] theorem observe_trace : (s.observe o).trace = s.trace ++ [o] := rfl

@[simp] theorem awaitResume_next : (s.awaitResume t future).next = s.next := by
  cases future <;> rfl

@[simp] theorem awaitResume_task : (s.awaitResume t future).task = s.task := by
  cases future <;> rfl

end State

/-- The task is in no queue. -/
def Away (s : State) (t : TaskId) : Prop := ∀ q, t ∉ s.queue q

/-- Pushing puts the task at one place more. -/
theorem mem_push {s : State} {q q' : Queue} {t t' : TaskId} (h : t' ∈ (s.push q t).queue q') :
    t' ∈ s.queue q' ∨ (q' = q ∧ t' = t) := by
  by_cases hq : q' = q
  · subst hq
    rw [push_queue_self, List.mem_append, List.mem_singleton] at h
    exact h.imp id fun ht => ⟨rfl, ht⟩
  · rw [push_queue_of_ne s t q hq] at h
    exact Or.inl h

theorem mem_pop {s : State} {q q' : Queue} {t' : TaskId} (h : t' ∈ (s.pop q).queue q') :
    t' ∈ s.queue q' := by
  by_cases hq : q' = q
  · subst hq
    rw [pop_queue_self] at h
    exact List.mem_of_mem_tail h
  · rwa [pop_queue_of_ne s q hq] at h

/-! ### Coroutines -/

section

variable {L : Layout} {w : WorkerId} {t : TaskId}

/--
**The rule for coroutines.**  What submitting a subtask and returning from a `co_await`
that is ready preserve still holds when the coroutine returns or suspends.
-/
theorem runBody_rule {P : Body → List (Option TaskId) → State → Prop} {Q : State → Prop}
    (hsubmit : ∀ header body rest slots s, P (.submit header body rest) slots s →
      P rest (slots ++ [some s.next]) (sendRuntimeClient L w t header body s))
    (hready : ∀ i rest slots s, P (.coAwait i rest) slots s →
      s.awaitReady (slot slots i) = true →
      P rest (slots.set i none) (s.awaitResume t (slot slots i)))
    (hcomplete : ∀ i complete pending slots s, P (.poll i complete pending) slots s →
      P complete slots s)
    (hpending : ∀ i complete pending slots s, P (.poll i complete pending) slots s →
      P pending slots s)
    (hreturn : ∀ slots s, P .coReturn slots s →
      Q (s.setCtx t fun ctx => { ctx with coroHandle := none }))
    (hwait : ∀ i rest slots s, P (.coAwait i rest) slots s →
      s.awaitReady (slot slots i) = false → Q (suspend t ⟨slots, .coAwait i rest⟩ 0 s))
    (hyield : ∀ us rest slots s, P (.yield us rest) slots s →
      Q (suspend t ⟨slots, .yield us rest⟩ us s)) :
    ∀ (body : Body) (slots : List (Option TaskId)) (s : State), P body slots s →
      Q (runBody L w t body slots s) := by
  intro body
  induction body with
  | coReturn =>
    intro slots s h
    exact hreturn slots s h
  | submit header body rest _ ih =>
    intro slots s h
    exact ih _ _ (hsubmit header body rest slots s h)
  | coAwait i rest ih =>
    intro slots s h
    unfold runBody
    by_cases hr : s.awaitReady (slot slots i) = true
    · rw [if_pos hr]
      exact ih _ _ (hready i rest slots s h hr)
    · rw [if_neg hr]
      exact hwait i rest slots s h (by simpa using hr)
  | poll i complete pending ihc ihp =>
    intro slots s h
    unfold runBody
    by_cases hc : s.isComplete (slot slots i) = true
    · rw [if_pos hc]
      exact ihc _ _ (hcomplete i complete pending slots s h)
    · rw [if_neg hc]
      exact ihp _ _ (hpending i complete pending slots s h)
  | yield us rest _ =>
    intro slots s h
    exact hyield us rest slots s h

end

/-! ### Order in the queues -/

/-- Where the tasks are.  The last field is what the coroutines have seen so far. -/
structure Tidy (s : State) : Prop where
  once : ∀ t q q', t ∈ s.queue q → t ∈ s.queue q' → q = q'
  nodup : ∀ q, (s.queue q).Nodup
  existing : ∀ q t, t ∈ s.queue q → t < s.next
  mapped : ∀ t, s.sendMap t ≠ none → t < s.next ∧ Away s t
  waiting : ∀ t slots i rest, (s.task t).ctx.coroHandle = some ⟨slots, .coAwait i rest⟩ →
    Away s t ∧ s.sendMap t = none
  slots : ∀ t frame, (s.task t).ctx.coroHandle = some frame →
    t < s.next ∧ ∀ i f, slot frame.slots i = some f → f < s.next
  honest : ∀ t f b, Observation.returned t f b ∈ s.trace →
    f < s.next ∧ (b = true ∨ (s.task f).header.fireAndForget = true)

/-- A worker has taken the task from wherever it was. -/
structure Held (s : State) (t : TaskId) : Prop where
  born : t < s.next
  away : Away s t
  unmapped : s.sendMap t = none

theorem tidy_init (container : NodeId → Address → Option Container) :
    Tidy (State.init container) := by
  refine ⟨?_, ?_, ?_, ?_, ?_, ?_, ?_⟩ <;> simp [State.init, Task.new]

section

variable {s : State} {t : TaskId}

/-- A change of a task that does not touch its header and leaves its coroutine alone, or
drops it. -/
theorem Tidy.setTask {f : Task → Task} (h : Tidy s)
    (hheader : (f (s.task t)).header = (s.task t).header)
    (hcoro : (f (s.task t)).ctx.coroHandle = (s.task t).ctx.coroHandle ∨
      (f (s.task t)).ctx.coroHandle = none) : Tidy (s.setTask t f) := by
  have hcases : ∀ t' frame, ((s.setTask t f).task t').ctx.coroHandle = some frame →
      (s.task t').ctx.coroHandle = some frame := by
    intro t' frame hframe
    by_cases ht : t' = t
    · subst ht
      rw [setTask_self] at hframe
      rcases hcoro with hcoro | hcoro
      · rwa [hcoro] at hframe
      · rw [hcoro] at hframe
        simp at hframe
    · rwa [setTask_of_ne s t f ht] at hframe
  refine ⟨h.once, h.nodup, h.existing, h.mapped, ?_, ?_, ?_⟩
  · intro t' slots i rest hframe
    exact h.waiting t' slots i rest (hcases _ _ hframe)
  · intro t' frame hframe
    exact h.slots t' frame (hcases _ _ hframe)
  · intro t' f' b hmem
    obtain ⟨hlt, hb⟩ := h.honest t' f' b hmem
    refine ⟨hlt, hb.imp id ?_⟩
    intro hfire
    by_cases ht : f' = t
    · subst ht
      rw [setTask_self, hheader]
      exact hfire
    · rwa [setTask_of_ne s t f ht]

theorem Tidy.setCtx {g : RunContext → RunContext} (h : Tidy s)
    (hcoro : (g (s.task t).ctx).coroHandle = (s.task t).ctx.coroHandle ∨
      (g (s.task t).ctx).coroHandle = none) : Tidy (s.setCtx t g) :=
  h.setTask rfl hcoro

/-- The task in hand may wait. -/
theorem Tidy.suspend {frame : Frame} {us : ℚ} (h : Tidy s) (ht : Held s t)
    (hslots : ∀ i f, slot frame.slots i = some f → f < s.next) :
    Tidy (suspend t frame us s) := by
  have hcases : ∀ t' frame', ((Runtime.suspend t frame us s).task t').ctx.coroHandle = some frame' →
      (t' = t ∧ frame' = frame) ∨ (s.task t').ctx.coroHandle = some frame' := by
    intro t' frame' hframe
    by_cases heq : t' = t
    · subst heq
      rw [Runtime.suspend, setCtx_self] at hframe
      exact Or.inl ⟨rfl, (Option.some.inj hframe).symm⟩
    · rw [Runtime.suspend, setCtx_of_ne s t _ heq] at hframe
      exact Or.inr hframe
  refine ⟨h.once, h.nodup, h.existing, h.mapped, ?_, ?_, ?_⟩
  · intro t' slots i rest hframe
    rcases hcases _ _ hframe with ⟨heq, _⟩ | hframe
    · rw [heq]
      exact ⟨ht.away, ht.unmapped⟩
    · exact h.waiting t' slots i rest hframe
  · intro t' frame' hframe
    rcases hcases _ _ hframe with ⟨heq, hframe⟩ | hframe
    · rw [heq, hframe]
      exact ⟨ht.born, hslots⟩
    · exact h.slots t' frame' hframe
  · intro t' f' b hmem
    obtain ⟨hlt, hb⟩ := h.honest t' f' b hmem
    refine ⟨hlt, hb.imp id ?_⟩
    intro hfire
    by_cases heq : f' = t
    · subst heq
      rw [Runtime.suspend, setCtx_self]
      exact hfire
    · rwa [Runtime.suspend, setCtx_of_ne s t _ heq]

/-- The task in hand may go to a queue, unless it waits for a future. -/
theorem Tidy.push (h : Tidy s) (ht : Held s t)
    (hrun : ∀ slots i rest, (s.task t).ctx.coroHandle ≠ some ⟨slots, .coAwait i rest⟩)
    (q : Queue) : Tidy (s.push q t) := by
  refine ⟨?_, ?_, ?_, ?_, ?_, h.slots, h.honest⟩
  · intro t' q₁ q₂ h₁ h₂
    rcases mem_push h₁ with hold₁ | ⟨rfl, rfl⟩
    · rcases mem_push h₂ with hold₂ | ⟨rfl, rfl⟩
      · exact h.once t' q₁ q₂ hold₁ hold₂
      · exact absurd hold₁ (ht.away q₁)
    · rcases mem_push h₂ with hold₂ | ⟨rfl, _⟩
      · exact absurd hold₂ (ht.away q₂)
      · rfl
  · intro q'
    by_cases hq : q' = q
    · subst hq
      rw [push_queue_self]
      refine List.nodup_append.mpr ⟨h.nodup q', by simp, ?_⟩
      intro t' hold t'' hnew heq
      rw [List.mem_singleton] at hnew
      rw [heq, hnew] at hold
      exact ht.away q' hold
    · rw [push_queue_of_ne s t q hq]
      exact h.nodup q'
  · intro q' t' hmem
    rcases mem_push hmem with hmem | ⟨_, rfl⟩
    · exact h.existing q' t' hmem
    · exact ht.born
  · intro t' hmap
    obtain ⟨hlt, haway⟩ := h.mapped t' hmap
    refine ⟨hlt, ?_⟩
    intro q' hmem
    rcases mem_push hmem with hmem | ⟨_, rfl⟩
    · exact haway q' hmem
    · exact hmap ht.unmapped
  · intro t' slots i rest hframe
    obtain ⟨haway, hmap⟩ := h.waiting t' slots i rest hframe
    refine ⟨?_, hmap⟩
    intro q' hmem
    rcases mem_push hmem with hmem | ⟨_, rfl⟩
    · exact haway q' hmem
    · exact hrun slots i rest hframe

/-- Taking an entry off a queue takes the task in hand. -/
theorem Tidy.pop {q : Queue} {rest : List TaskId} (h : Tidy s) (hq : s.queue q = t :: rest) :
    Tidy (s.pop q) ∧ Held (s.pop q) t := by
  have hmem : t ∈ s.queue q := by
    rw [hq]
    simp
  have hunmapped : s.sendMap t = none := by
    by_contra hmap
    exact (h.mapped t hmap).2 q hmem
  refine ⟨⟨?_, ?_, ?_, ?_, ?_, h.slots, h.honest⟩, h.existing q t hmem, ?_, hunmapped⟩
  · intro t' q₁ q₂ h₁ h₂
    exact h.once t' q₁ q₂ (mem_pop h₁) (mem_pop h₂)
  · intro q'
    by_cases hq' : q' = q
    · subst hq'
      rw [pop_queue_self]
      exact (h.nodup q').tail
    · rw [pop_queue_of_ne s q hq']
      exact h.nodup q'
  · intro q' t' hmem'
    exact h.existing q' t' (mem_pop hmem')
  · intro t' hmap
    obtain ⟨hlt, haway⟩ := h.mapped t' hmap
    exact ⟨hlt, fun q' hmem' => haway q' (mem_pop hmem')⟩
  · intro t' slots i rest' hframe
    obtain ⟨haway, hmap⟩ := h.waiting t' slots i rest' hframe
    exact ⟨fun q' hmem' => haway q' (mem_pop hmem'), hmap⟩
  · intro q' hmem'
    have heq : q' = q := h.once t q' q (mem_pop hmem') hmem
    subst heq
    have hnodup := h.nodup q'
    rw [pop_queue_self, hq] at hmem'
    rw [hq, List.nodup_cons] at hnodup
    exact hnodup.1 hmem'

/-- A new task, on a lane. -/
theorem Tidy.new {task : Task} {w : WorkerId} (h : Tidy s) (hcoro : task.ctx.coroHandle = none) :
    Tidy (({ s with next := s.next + 1, task := Function.update s.task s.next task } : State).push
      (.lane w) s.next) := by
  have hfresh : Away s s.next := fun q hmem => Nat.lt_irrefl _ (h.existing q _ hmem)
  have hnew : Tidy { s with next := s.next + 1, task := Function.update s.task s.next task } := by
    have hcases : ∀ t' frame, (Function.update s.task s.next task t').ctx.coroHandle = some frame →
        (s.task t').ctx.coroHandle = some frame := by
      intro t' frame hframe
      by_cases heq : t' = s.next
      · subst heq
        rw [Function.update_self, hcoro] at hframe
        simp at hframe
      · rwa [Function.update_of_ne heq] at hframe
    refine ⟨h.once, h.nodup, ?_, ?_, ?_, ?_, ?_⟩
    · intro q t' hmem
      exact Nat.lt_succ_of_lt (h.existing q t' hmem)
    · intro t' hmap
      obtain ⟨hlt, haway⟩ := h.mapped t' hmap
      exact ⟨Nat.lt_succ_of_lt hlt, haway⟩
    · intro t' slots i rest hframe
      exact h.waiting t' slots i rest (hcases _ _ hframe)
    · intro t' frame hframe
      obtain ⟨hlt, hslots⟩ := h.slots t' frame (hcases _ _ hframe)
      exact ⟨Nat.lt_succ_of_lt hlt, fun i f hf => Nat.lt_succ_of_lt (hslots i f hf)⟩
    · intro t' f b hmem
      obtain ⟨hlt, hb⟩ := h.honest t' f b hmem
      refine ⟨Nat.lt_succ_of_lt hlt, ?_⟩
      dsimp only
      rwa [Function.update_of_ne (Nat.ne_of_lt hlt)]
  refine hnew.push ⟨Nat.lt_succ_self _, hfresh, ?_⟩ ?_ _
  · by_contra hmap
    exact Nat.lt_irrefl _ (h.mapped _ hmap).1
  · intro slots i rest
    dsimp only
    rw [Function.update_self, hcoro]
    simp

/-- Returning from a `co_await` that is ready, or whose future is complete. -/
theorem Tidy.awaitResume {future : Option TaskId} (h : Tidy s)
    (hfuture : ∀ f, future = some f → f < s.next ∧
      ((s.task f).complete = true ∨ (s.task f).header.fireAndForget = true)) :
    Tidy (s.awaitResume t future) := by
  cases future with
  | none => exact h
  | some f =>
    refine ⟨h.once, h.nodup, h.existing, h.mapped, h.waiting, h.slots, ?_⟩
    intro t' f' b hmem
    rw [State.awaitResume, observe_trace, List.mem_append, List.mem_singleton] at hmem
    rcases hmem with hmem | hmem
    · exact h.honest t' f' b hmem
    · obtain ⟨-, hf, hb⟩ := Observation.returned.inj hmem
      rw [hf, hb]
      exact hfuture f rfl

/-- Other observations are about no future. -/
theorem Tidy.observe {o : Observation} (h : Tidy s)
    (ho : ∀ t f b, o ≠ .returned t f b) : Tidy (s.observe o) := by
  refine ⟨h.once, h.nodup, h.existing, h.mapped, h.waiting, h.slots, ?_⟩
  intro t' f' b hmem
  rw [observe_trace, List.mem_append, List.mem_singleton] at hmem
  rcases hmem with hmem | hmem
  · exact h.honest t' f' b hmem
  · exact absurd hmem.symm (ho t' f' b)

/-! ### The task in hand -/

theorem Held.setTask {t' : TaskId} {f : Task → Task} (h : Held s t) : Held (s.setTask t' f) t :=
  ⟨h.born, h.away, h.unmapped⟩

theorem Held.setCtx {t' : TaskId} {g : RunContext → RunContext} (h : Held s t) :
    Held (s.setCtx t' g) t :=
  ⟨h.born, h.away, h.unmapped⟩

theorem Held.observe {o : Observation} (h : Held s t) : Held (s.observe o) t :=
  ⟨h.born, h.away, h.unmapped⟩

theorem Held.awaitResume {t' : TaskId} {future : Option TaskId} (h : Held s t) :
    Held (s.awaitResume t' future) t := by
  cases future with
  | none => exact h
  | some f => exact h.observe

/-- A new task is another one. -/
theorem Held.new {task : Task} {w : WorkerId} (h : Held s t) :
    Held (({ s with next := s.next + 1, task := Function.update s.task s.next task } : State).push
      (.lane w) s.next) t := by
  refine ⟨Nat.lt_succ_of_lt h.born, ?_, h.unmapped⟩
  intro q hmem
  rcases mem_push hmem with hmem | ⟨_, heq⟩
  · exact h.away q hmem
  · exact Nat.ne_of_lt h.born heq

end

/-! ### Slots -/

section

variable {slots : List (Option TaskId)} {i j : Nat} {f : TaskId}

theorem slot_append {future : Option TaskId} (h : slot (slots ++ [future]) i = some f) :
    slot slots i = some f ∨ future = some f := by
  unfold slot at h ⊢
  rw [List.getElem?_append] at h
  split at h
  · exact Or.inl h
  · right
    rw [List.getElem?_singleton] at h
    split at h
    · exact h
    · simp at h

theorem slot_set_none (h : slot (slots.set i none) j = some f) : slot slots j = some f := by
  unfold slot at h ⊢
  rw [List.getElem?_set] at h
  split at h
  · split at h <;> simp at h
  · exact h

end

/-! ### Executing a task -/

section

variable {L : Layout} {w : WorkerId} {s : State} {t : TaskId}

/-- The coroutine is not at the `co_await` of a future. -/
def Unawaiting (s : State) (t : TaskId) : Prop :=
  ∀ slots i rest, (s.task t).ctx.coroHandle ≠ some ⟨slots, .coAwait i rest⟩

/-- The coroutine is at the `co_await` of a future only if its context says so. -/
def Suspended (s : State) (t : TaskId) : Prop :=
  ∀ slots i rest, (s.task t).ctx.coroHandle = some ⟨slots, .coAwait i rest⟩ →
    (s.task t).ctx.isYielded = true ∧ (s.task t).ctx.yieldTime = 0

/-- A subtask as it is enqueued. -/
def submitted (w : WorkerId) (parent : TaskId) (header : Header) (body : Body) : Task :=
  { Task.new header body (some parent) none with
    hasContext := true
    ctx := ⟨none, some w, none, false, header.period.getD 0, 0⟩ }

theorem sendRuntimeClient_eq (header : Header) (body : Body) :
    sendRuntimeClient L w t header body s =
      ({ s with
          next := s.next + 1
          task := Function.update s.task s.next (submitted w t header body) } : State).push
        (.lane (L.clientMapTask s.next)) s.next := by
  simp [sendRuntimeClient, beginTask, State.setTask, submitted, Task.new]

theorem tidy_runBody (body : Body) (slots : List (Option TaskId)) (h : Tidy s) (ht : Held s t)
    (hslots : ∀ i f, slot slots i = some f → f < s.next) :
    Tidy (runBody L w t body slots s) ∧ Held (runBody L w t body slots s) t ∧
      Suspended (runBody L w t body slots s) t := by
  refine runBody_rule
    (P := fun _ slots s => Tidy s ∧ Held s t ∧ ∀ i f, slot slots i = some f → f < s.next)
    (Q := fun s => Tidy s ∧ Held s t ∧ Suspended s t)
    ?_ ?_ (fun _ _ _ _ _ h => h) (fun _ _ _ _ _ h => h) ?_ ?_ ?_ body slots s ⟨h, ht, hslots⟩
  · rintro header body rest slots s ⟨h, ht, hslots⟩
    rw [sendRuntimeClient_eq]
    refine ⟨@Tidy.new _ (submitted w t header body) _ h rfl, ht.new, ?_⟩
    intro i f hf
    rcases slot_append hf with hf | hf
    · exact Nat.lt_succ_of_lt (hslots i f hf)
    · rw [← Option.some.inj hf]
      exact Nat.lt_succ_self _
  · rintro i rest slots s ⟨h, ht, hslots⟩ hready
    refine ⟨h.awaitResume ?_, ht.awaitResume, ?_⟩
    · intro f hf
      rw [hf] at hready
      refine ⟨hslots i f hf, ?_⟩
      simpa [State.awaitReady, State.isComplete] using hready
    · intro j f hf
      rw [State.awaitResume_next]
      exact hslots j f (slot_set_none hf)
  · rintro slots s ⟨h, ht, _⟩
    refine ⟨h.setCtx (Or.inr rfl), ht.setCtx, ?_⟩
    intro slots i rest hframe
    rw [setCtx_self] at hframe
    simp at hframe
  · rintro i rest slots s ⟨h, ht, hslots⟩ _
    refine ⟨h.suspend ht hslots, ht.setCtx, ?_⟩
    intro slots' i' rest' _
    rw [Runtime.suspend, setCtx_self]
    exact ⟨rfl, rfl⟩
  · rintro us rest slots s ⟨h, ht, hslots⟩
    refine ⟨h.suspend ht hslots, ht.setCtx, ?_⟩
    intro slots' i' rest' hframe
    rw [Runtime.suspend, setCtx_self] at hframe
    simp at hframe

theorem tidy_updateWork {c : Container} {k : Int} (h : Tidy s) : Tidy (updateWork t c k s) :=
  Tidy.observe ⟨h.once, h.nodup, h.existing, h.mapped, h.waiting, h.slots, h.honest⟩ (by simp)

theorem held_updateWork {c : Container} {k : Int} (h : Held s t) : Held (updateWork t c k s) t :=
  Held.observe ⟨h.born, h.away, h.unmapped⟩

theorem tidy_startCoroutine (h : Tidy s) (ht : Held s t) (hrun : Unawaiting s t) :
    Tidy (startCoroutine L w t s) ∧ Held (startCoroutine L w t s) t ∧
      Suspended (startCoroutine L w t s) t := by
  unfold startCoroutine
  split
  · exact ⟨h, ht, fun slots i rest hframe => absurd hframe (hrun slots i rest)⟩
  · refine tidy_runBody _ _ (Tidy.observe ?_ (by simp)) (Held.observe ?_) (by simp [slot])
    · split
      · exact tidy_updateWork h
      · exact h
    · split
      · exact held_updateWork ht
      · exact ht

theorem tidy_resumeCoroutine (h : Tidy s) (ht : Held s t)
    (hdone : ∀ slots i rest, (s.task t).ctx.coroHandle = some ⟨slots, .coAwait i rest⟩ →
      ∀ f, slot slots i = some f → (s.task f).complete = true) :
    Tidy (resumeCoroutine L w t s) ∧ Held (resumeCoroutine L w t s) t ∧
      Suspended (resumeCoroutine L w t s) t := by
  have h' : Tidy (s.setCtx t fun ctx => { ctx with isYielded := false }) := h.setCtx (Or.inl rfl)
  have ht' : Held (s.setCtx t fun ctx => { ctx with isYielded := false }) t := ht.setCtx
  have hcoro : ((s.setCtx t fun ctx => { ctx with isYielded := false }).task t).ctx.coroHandle =
      (s.task t).ctx.coroHandle := by rw [setCtx_self]
  unfold resumeCoroutine
  dsimp only
  split
  next hnone =>
    refine ⟨h', ht', ?_⟩
    intro slots i rest hframe
    rw [hnone] at hframe
    simp at hframe
  next slots i rest hframe =>
    have hslots := (h'.slots t _ hframe).2
    refine tidy_runBody _ _ (h'.awaitResume ?_) ht'.awaitResume ?_
    · intro f hf
      refine ⟨hslots i f hf, Or.inl ?_⟩
      have hcomplete := hdone slots i rest (hcoro ▸ hframe) f hf
      by_cases heq : f = t
      · subst heq
        rw [setCtx_self]
        exact hcomplete
      · rwa [setCtx_of_ne s t _ heq]
    · intro j f hf
      rw [State.awaitResume_next]
      exact hslots j f (slot_set_none hf)
  next slots us rest hframe => exact tidy_runBody _ _ h' ht' (h'.slots t _ hframe).2
  next slots body _ _ hframe => exact tidy_runBody _ _ h' ht' (h'.slots t _ hframe).2

theorem tidy_addToBlockedQueue (h : Tidy s) (ht : Held s t) (hrun : Unawaiting s t) :
    Tidy (addToBlockedQueue w t s) := by
  unfold addToBlockedQueue
  split
  · refine (h.setCtx (Or.inl rfl)).push ht.setCtx ?_ _
    intro slots i rest
    rw [setCtx_self]
    exact hrun slots i rest
  · exact h.push ht hrun _

theorem tidy_endTask (h : Tidy s) (ht : Held s t) (hrun : Unawaiting s t) :
    Tidy (endTask L w t s) := by
  unfold endTask
  split
  · exact h
  · split
    · refine tidy_addToBlockedQueue (h.setTask rfl (Or.inl rfl)) ht.setTask ?_
      intro slots i rest
      rw [setTask_self]
      exact hrun slots i rest
    · unfold replyTask
      split
      · exact tidy_updateWork h
      · split
        · exact (tidy_updateWork h).push (held_updateWork ht) hrun _
        · split
          · exact (tidy_updateWork h).push (held_updateWork ht) hrun _
          · exact (tidy_updateWork h).setTask rfl (Or.inl rfl)

theorem tidy_settleTask (h : Tidy s) (ht : Held s t) (hsusp : Suspended s t) :
    Tidy (settleTask L w t s) := by
  unfold settleTask
  split
  · split
    next hpos =>
      refine tidy_addToBlockedQueue h ht ?_
      intro slots i rest hframe
      rw [(hsusp slots i rest hframe).2] at hpos
      exact absurd hpos (by decide)
    · exact h
  next hidle =>
    refine tidy_endTask h ht ?_
    intro slots i rest hframe
    exact hidle (hsusp slots i rest hframe).1

/-- Resolving the container changes neither the queues nor the coroutine. -/
theorem tidy_resolveContainer (h : Tidy s) (ht : Held s t) :
    Tidy (resolveContainer L w t s) ∧ Held (resolveContainer L w t s) t ∧
      ((resolveContainer L w t s).task t).ctx.coroHandle = (s.task t).ctx.coroHandle ∧
      ∀ f, ((resolveContainer L w t s).task f).complete = (s.task f).complete := by
  unfold resolveContainer
  split
  · refine ⟨h.setCtx (Or.inl rfl), ht.setCtx, by rw [setCtx_self], ?_⟩
    intro f
    by_cases heq : f = t
    · rw [heq, setCtx_self]
    · rw [setCtx_of_ne s t _ heq]
  · exact ⟨h, ht, rfl, fun _ => rfl⟩

/-- **Executing the task in hand** leaves everything in order, if a future it waits for is
complete. -/
theorem tidy_execTask {isStarted : Bool} (h : Tidy s) (ht : Held s t)
    (hdone : ∀ slots i rest, (s.task t).ctx.coroHandle = some ⟨slots, .coAwait i rest⟩ →
      isStarted = true ∧ ∀ f, slot slots i = some f → (s.task f).complete = true) :
    Tidy (execTask L w t isStarted s) := by
  obtain ⟨h₁, ht₁, hcoro, hcomplete⟩ := @tidy_resolveContainer L w s t h ht
  have hsecond : Tidy (runCoroutine L w t isStarted (resolveContainer L w t s)) ∧
      Held (runCoroutine L w t isStarted (resolveContainer L w t s)) t ∧
      Suspended (runCoroutine L w t isStarted (resolveContainer L w t s)) t := by
    unfold runCoroutine
    split
    · refine tidy_resumeCoroutine h₁ ht₁ ?_
      intro slots i rest hframe f hf
      rw [hcomplete]
      exact (hdone slots i rest (hcoro ▸ hframe)).2 f hf
    next hnew =>
      have hrun : Unawaiting (resolveContainer L w t s) t := by
        intro slots i rest hframe
        exact hnew (hdone slots i rest (hcoro ▸ hframe)).1
      obtain ⟨h₂, ht₂, hsusp⟩ := @tidy_startCoroutine L w _ t h₁ ht₁ hrun
      refine ⟨h₂.setTask rfl (Or.inl rfl), ht₂.setTask, ?_⟩
      intro slots i rest hframe
      rw [setTask_self] at hframe ⊢
      exact hsusp slots i rest hframe
  exact tidy_settleTask hsecond.1 hsecond.2.1 hsecond.2.2

end

end Runtime
end IowarpCore
