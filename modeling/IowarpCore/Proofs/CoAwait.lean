/-
When `co_await` may be believed.

`ProcessEventQueue` resumes the parent of a subtask that ended, whatever that parent is
suspended at.  If a task has two subtasks under way and the one it does not wait for ends
first, its `co_await` returns while the other still runs.  It returns from every `co_await`
with its future complete if events come in the order in which the parent waits for them.
-/
import IowarpCore.Proofs.Worker

namespace IowarpCore
namespace Runtime

open State

/-- The future at whose `co_await` a task is suspended. -/
def awaited (s : State) (t : TaskId) : Option TaskId :=
  match (s.task t).ctx.coroHandle with
  | some ⟨slots, .coAwait i _⟩ => slot slots i
  | _ => none

/-- An event that is next finds its parent, unless that has returned, suspended at the
`co_await` of the future it is about. -/
def Timely : Act → State → Prop
  | .event w, s => ∀ f ∈ (s.queue (.events w)).head?, ∀ p ∈ (s.task f).parent,
      (s.task p).ctx.coroHandle = none ∨ awaited s p = some f
  | _, _ => True

instance decidableTimely (a : Act) (s : State) : Decidable (Timely a s) :=
  match a with
  | .event w => inferInstanceAs (Decidable (∀ f ∈ (s.queue (.events w)).head?,
      ∀ p ∈ (s.task f).parent, (s.task p).ctx.coroHandle = none ∨ awaited s p = some f))
  | .accept .. | .newTask .. | .periodic .. | .blocked .. | .retry .. | .sendIn .. | .recvOut ..
  | .plug .. | .move .. => inferInstanceAs (Decidable True)

theorem awaited_eq_some {s : State} {t f : TaskId} (h : awaited s t = some f) :
    ∃ slots i rest, (s.task t).ctx.coroHandle = some ⟨slots, .coAwait i rest⟩ ∧
      slot slots i = some f := by
  unfold awaited at h
  split at h
  next slots i rest hframe => exact ⟨slots, i, rest, hframe, h⟩
  next => simp at h

section

variable {L : Layout} {w : WorkerId} {s : State} {t : TaskId}

/-- A task that was in a queue does not wait for a future. -/
theorem Tidy.taken {q : Queue} {rest : List TaskId} (h : Tidy s) (hq : s.queue q = t :: rest) :
    Tidy (s.pop q) ∧ Held (s.pop q) t ∧ Unawaiting (s.pop q) t := by
  obtain ⟨hpop, ht⟩ := h.pop hq
  refine ⟨hpop, ht, ?_⟩
  intro slots i rest' hframe
  refine (h.waiting t slots i rest' hframe).1 q ?_
  rw [hq]
  simp

theorem Unawaiting.setTask {f : Task → Task} (h : Unawaiting s t)
    (hcoro : (f (s.task t)).ctx.coroHandle = (s.task t).ctx.coroHandle) :
    Unawaiting (s.setTask t f) t := by
  intro slots i rest
  rw [setTask_self, hcoro]
  exact h slots i rest

theorem Unawaiting.setCtx {g : RunContext → RunContext} (h : Unawaiting s t)
    (hcoro : (g (s.task t).ctx).coroHandle = (s.task t).ctx.coroHandle) :
    Unawaiting (s.setCtx t g) t :=
  h.setTask hcoro

theorem tidy_routeGlobal (h : Tidy s) (ht : Held s t) (hrun : Unawaiting s t) :
    Tidy (routeGlobal L w t s) :=
  (h.push ht hrun _).setTask rfl (Or.inl rfl)

/-- A task that is routed is in a queue, or still in hand. -/
theorem tidy_routeTask {route : Route} (h : Tidy s) (ht : Held s t) (hrun : Unawaiting s t) :
    Tidy (routeTask L w t route s).2 ∧ ((routeTask L w t route s).1 = true →
      Held (routeTask L w t route s).2 t ∧ Unawaiting (routeTask L w t route s).2 t) := by
  unfold routeTask
  split
  · exact ⟨h, fun _ => ⟨ht, hrun⟩⟩
  · split
    · exact ⟨h, by simp⟩
    · have h₁ : Tidy (s.setTask t fun task => { task with routed := true }) :=
        h.setTask rfl (Or.inl rfl)
      have hrun₁ : Unawaiting (s.setTask t fun task => { task with routed := true }) t :=
        hrun.setTask rfl
      unfold routeLocal
      dsimp only
      split
      · exact ⟨h₁.push ht.setTask hrun₁ _, by simp⟩
      · split
        · dsimp only
          exact ⟨h₁.setCtx (Or.inl rfl), fun _ => ⟨ht.setTask.setCtx, hrun₁.setCtx rfl⟩⟩
        · dsimp only
          exact ⟨(h₁.setCtx (Or.inl rfl)).push ht.setTask.setCtx (hrun₁.setCtx rfl) _, by simp⟩
    · exact ⟨tidy_routeGlobal h ht hrun, by simp⟩

theorem tidy_routeAndExec {route : Route} {isStarted : Bool} (h : Tidy s) (ht : Held s t)
    (hrun : Unawaiting s t) : Tidy (routeAndExec L w t route isStarted s) := by
  have hroute := @tidy_routeTask L w s t route h ht hrun
  unfold routeAndExec
  split
  next s' heq =>
    rw [heq] at hroute
    obtain ⟨ht', hrun'⟩ := hroute.2 rfl
    exact tidy_execTask hroute.1 ht' fun slots i rest hframe => absurd hframe (hrun' slots i rest)
  next s' heq =>
    rw [heq] at hroute
    exact hroute.1

/-! ### The queues -/

theorem tidy_processNewTask {route : Route} (h : Tidy s) : Tidy (processNewTask L w route s) := by
  unfold processNewTask
  split
  · exact h
  next t rest hq =>
    obtain ⟨hpop, ht, hrun⟩ := h.taken hq
    dsimp only
    split
    · exact hpop.setTask rfl (Or.inl rfl)
    · split
      · exact tidy_routeAndExec (hpop.setCtx (Or.inl rfl)) ht.setCtx (hrun.setCtx rfl)
      · refine tidy_routeAndExec (hpop.setTask rfl (Or.inr rfl)) ht.setTask ?_
        intro slots i rest'
        rw [beginTask, setTask_self]
        simp

/-- The one step where the order of the events matters. -/
theorem tidy_processEvent (h : Tidy s) (htime : Timely (.event w) s) :
    Tidy (processEvent L w s) := by
  unfold processEvent
  split
  · exact h
  next f rest hq =>
    obtain ⟨hpop, _⟩ := h.pop hq
    have hset : Tidy ((s.pop (.events w)).setTask f fun task => { task with complete := true }) :=
      hpop.setTask rfl (Or.inl rfl)
    have hcoro : ∀ p, (((s.pop (.events w)).setTask f fun task =>
        { task with complete := true }).task p).ctx.coroHandle = (s.task p).ctx.coroHandle := by
      intro p
      by_cases heq : p = f
      · rw [heq, setTask_self]
        rfl
      · rw [setTask_of_ne _ _ _ heq]
        rfl
    dsimp only
    split
    · exact hset
    next p hparent =>
      rw [setTask_self] at hparent
      split
      · exact hset
      next hsome =>
        rw [hcoro] at hsome
        rcases htime f (by simp [hq]) p hparent with hnone | hwaits
        · rw [hnone] at hsome
          simp at hsome
        obtain ⟨slots, i, rest', hframe, hslot⟩ := awaited_eq_some hwaits
        obtain ⟨haway, hmap⟩ := h.waiting p slots i rest' hframe
        have hborn := (h.slots p _ hframe).1
        have hheld : Held ((s.pop (.events w)).setTask f fun task =>
            { task with complete := true }) p :=
          ⟨hborn, fun q hmem => haway q (mem_pop hmem), hmap⟩
        refine tidy_execTask (hset.setCtx (Or.inl rfl)) hheld.setCtx ?_
        intro slots' i' rest'' hframe'
        rw [setCtx_self] at hframe'
        dsimp only at hframe'
        rw [hcoro, hframe] at hframe'
        simp only [Option.some.injEq, Frame.mk.injEq, Body.coAwait.injEq] at hframe'
        obtain ⟨rfl, rfl, rfl⟩ := hframe'
        refine ⟨rfl, ?_⟩
        intro f' hf'
        rw [hslot] at hf'
        obtain rfl := Option.some.inj hf'
        by_cases heq : f = p
        · subst heq
          simp
        · rw [setCtx_of_ne _ _ _ heq, setTask_self]

theorem tidy_processPeriodic {i : Fin 4} {due : Bool} {route : Route} (h : Tidy s) :
    Tidy (processPeriodic L w i due route s) := by
  unfold processPeriodic
  split
  · exact h
  next t rest hq =>
    obtain ⟨hpop, ht, hrun⟩ := h.taken hq
    dsimp only
    split
    · exact tidy_routeAndExec (hpop.setTask rfl (Or.inl rfl)) ht.setTask (hrun.setTask rfl)
    · exact hpop.push ht hrun _

theorem tidy_processBlocked {i : Fin 4} (h : Tidy s) : Tidy (processBlocked L w i s) := by
  unfold processBlocked
  split
  · exact h
  next t rest hq =>
    obtain ⟨hpop, ht, hrun⟩ := h.taken hq
    dsimp only
    split
    · exact hpop
    · exact tidy_execTask (hpop.setCtx (Or.inl rfl)) ht.setCtx fun slots i rest hframe =>
        absurd hframe ((hrun.setCtx rfl) slots i rest)

theorem tidy_processRetry {route : Route} (h : Tidy s) : Tidy (processRetry L w route s) := by
  unfold processRetry
  split
  · exact h
  next t rest hq =>
    obtain ⟨hpop, ht, hrun⟩ := h.taken hq
    dsimp only
    split
    · split
      · exact hpop.push ht hrun _
      · exact tidy_execTask (hpop.setCtx (Or.inl rfl)) ht.setCtx fun slots i rest hframe =>
          absurd hframe ((hrun.setCtx rfl) slots i rest)
    · exact tidy_routeGlobal hpop ht hrun

/-! ### The network -/

theorem tidy_recvIn (h : Tidy s) (w : WorkerId) : Tidy (recvIn t s w) := by
  unfold recvIn State.setTask
  exact h.new rfl

theorem tidy_arrived (arrived : List WorkerId) : ∀ {s : State}, Tidy s →
    Tidy (arrived.foldl (recvIn t) s) := by
  induction arrived with
  | nil =>
    intro s h
    exact h
  | cons w arrived ih =>
    intro s h
    exact ih (tidy_recvIn h w)

/-- A change of the send map at a task that is in no queue. -/
theorem tidy_unmap (t : TaskId) (replicas : Option Nat) (h : Tidy s) (hborn : t < s.next)
    (haway : Away s t) (hrun : replicas ≠ none → Unawaiting s t) :
    Tidy { s with sendMap := Function.update s.sendMap t replicas } := by
  refine ⟨h.once, h.nodup, h.existing, ?_, ?_, h.slots, h.honest⟩
  · intro t' hmap
    by_cases heq : t' = t
    · rw [heq]
      exact ⟨hborn, haway⟩
    · dsimp only at hmap
      rw [Function.update_of_ne heq] at hmap
      exact h.mapped t' hmap
  · intro t' slots i rest hframe
    obtain ⟨haway', hmap⟩ := h.waiting t' slots i rest hframe
    refine ⟨haway', ?_⟩
    dsimp only
    by_cases heq : t' = t
    · subst heq
      rw [Function.update_self]
      by_contra hne
      exact hrun hne slots i rest hframe
    · rwa [Function.update_of_ne heq]

theorem tidy_sendIn {n : NodeId} {replicas : Nat} {arrived : List WorkerId} (h : Tidy s) :
    Tidy (sendIn n replicas arrived s) := by
  unfold sendIn
  split
  · exact h
  next t rest hq =>
    obtain ⟨hpop, ht, hrun⟩ := h.taken hq
    refine tidy_arrived arrived (tidy_unmap t _ hpop ht.born ht.away ?_)
    intro _
    exact hrun

/-- An answer may end the origin: it was in no queue, and waits for no future of its own. -/
theorem tidy_recvOut {n : NodeId} (h : Tidy s) : Tidy (recvOut L n w s) := by
  unfold recvOut
  split
  · exact h
  next copy rest hq =>
    obtain ⟨hpop, _⟩ := h.pop hq
    dsimp only
    split
    · exact hpop
    next t _ =>
      split
      · exact hpop
      · exact hpop
      next hmap =>
        obtain ⟨hborn, haway⟩ := hpop.mapped t (by rw [hmap]; simp)
        have hrun : Unawaiting (s.pop (.sendOut n)) t := by
          intro slots i rest' hframe
          have hnone := (hpop.waiting t slots i rest' hframe).2
          rw [hmap] at hnone
          simp at hnone
        have h₁ := tidy_unmap t none hpop hborn haway (fun hne => absurd rfl hne)
        have ht : Held { s.pop (.sendOut n) with
            sendMap := Function.update (s.pop (.sendOut n)).sendMap t none } t :=
          ⟨hborn, haway, by simp⟩
        split
        · exact tidy_endTask (h₁.setCtx (Or.inl rfl)) ht.setCtx
            (Unawaiting.setCtx (s := { s.pop (.sendOut n) with
              sendMap := Function.update (s.pop (.sendOut n)).sendMap t none }) hrun rfl)
        · exact tidy_endTask h₁ ht hrun
      next replicas hmap =>
        obtain ⟨hborn, haway⟩ := hpop.mapped t (by rw [hmap]; simp)
        refine tidy_unmap t _ hpop hborn haway ?_
        intro _ slots i rest' hframe
        have hnone := (hpop.waiting t slots i rest' hframe).2
        rw [hmap] at hnone
        simp at hnone

/-! ### Runs -/

/-- **One step**, with its event in time, leaves everything in order. -/
theorem tidy_step {a : Act} (h : Tidy s) (htime : Timely a s) : Tidy (step L a s) := by
  cases a with
  | accept w header body => exact h.new rfl
  | newTask w route => exact tidy_processNewTask h
  | event w => exact tidy_processEvent h htime
  | periodic w i due route => exact tidy_processPeriodic h
  | blocked w i => exact tidy_processBlocked h
  | retry w route => exact tidy_processRetry h
  | sendIn n replicas arrived => exact tidy_sendIn h
  | recvOut n w => exact tidy_recvOut h
  | plug c plugged =>
    exact ⟨h.once, h.nodup, h.existing, h.mapped, h.waiting, h.slots, h.honest⟩
  | move n address c =>
    exact ⟨h.once, h.nodup, h.existing, h.mapped, h.waiting, h.slots, h.honest⟩

end

/-- A run of the workers whose steps meet a condition on the state before them. -/
def Runs (L : Layout) (C : Act → State → Prop) : List Act → State → State → Prop :=
  Along fun a s s' => C a s ∧ s' = step L a s

def run (L : Layout) (acts : List Act) (s : State) : State :=
  acts.foldl (fun s a => step L a s) s

/-- Whether every step of a run meets the condition. -/
def meets (L : Layout) (C : Act → State → Prop) [∀ a s, Decidable (C a s)] :
    List Act → State → Bool
  | [], _ => true
  | a :: acts, s => decide (C a s) && meets L C acts (step L a s)

theorem runs_of_meets {L : Layout} {C : Act → State → Prop} [∀ a s, Decidable (C a s)]
    (acts : List Act) : ∀ {s : State}, meets L C acts s = true → Runs L C acts s (run L acts s) := by
  induction acts with
  | nil =>
    intro s _
    exact rfl
  | cons a acts ih =>
    intro s h
    rw [meets, Bool.and_eq_true, decide_eq_true_eq] at h
    exact ⟨step L a s, ⟨h.1, rfl⟩, ih h.2⟩

/-- One worker, and one container that is always there. -/
def oneWorker : Layout := ⟨fun _ => 0, fun _ _ => some 0, fun _ => 0⟩

def plain : Header := ⟨0, none, false⟩

/-- Submit two subtasks and wait for them in that order. -/
def twoSubtasks (first second : Body) : Body :=
  .submit plain first (.submit plain second (.coAwait 0 (.coAwait 1 .coReturn)))

/-- Start the task and its two subtasks. -/
def startAll (body : Body) : List Act :=
  [.accept 0 plain body, .newTask 0 (.here 0), .newTask 0 (.here 0), .newTask 0 (.here 0)]

/-- The actions by which both subtasks end in the order in which they are awaited. -/
def inOrder : List Act :=
  startAll (twoSubtasks .coReturn .coReturn) ++ [.event 0, .event 0]

end Runtime
end IowarpCore
