/-
When a worker sleeps with nothing left to do.

A producer tests a queue and pushes onto it in two steps.  If the worker empties the queue
between them, and looks at it for the last time before its wait, then the push finds nobody
who sends a signal: the producer saw entries, so it relies on whoever pushed them.  That is
one way to be stranded.  The others are entries of the worker's own queues that its last pass
leaves there and does not count as work.  `undisturbed` is a step that takes neither way.

In a run of such steps a queue that the worker will not look at again is empty, or a signal
is on its way (`Inv.inbox`), and its own queues are empty once they were passed
(`Inv.covered`).
-/
import IowarpCore.Lib.Threads
import IowarpCore.Runtime.Suspend

namespace IowarpCore
namespace Runtime
namespace Suspend

/-! ### The condition on steps -/

def Phase.isWaiting : Phase → Bool
  | .waiting _ => true
  | _ => false

/-- The worker is on its way to a wait, or there. -/
def Worker.Settling (w : Worker) : Prop :=
  w.phase = .settle ∧ w.taskDidWork = false ∨ w.phase.isWaiting = true

instance (w : Worker) : Decidable w.Settling :=
  inferInstanceAs (Decidable (_ ∨ _))

/-- The worker does not look at the queue again before its next wait, as things stand. -/
def Worker.Passed (w : Worker) : Inbox → Prop
  | .lane =>
    w.phase = .newTasks ∧ w.todo = [] ∧ w.didWork = false ∨
      w.phase = .continueBlocked ∧ w.didWork = false ∨ w.Settling
  | .events => w.Settling ∧ Op.events ∉ w.todo

instance (w : Worker) : (q : Inbox) → Decidable (w.Passed q)
  | .lane => inferInstanceAs (Decidable (_ ∨ _))
  | .events => inferInstanceAs (Decidable (_ ∧ _))

def Own.isPeriodic : Own → Bool
  | .periodic _ => true
  | _ => false

/-- In the last pass before a wait, while nothing counted as work: a task to be retried is not
put back, a blocked queue has no more entries than the pass takes, and nothing is added to a
queue that the pass is through with. -/
def settles (own : Own → List Entry) (c : Choice) : List Op → Bool
  | .process (.blocked i) :: _ => (own (.blocked i)).length ≤ 8
  | .entries .retry (_ + 1) :: _ => c ≠ .handle .putBack
  | .add q _ :: rest => q.isPeriodic || decide (Op.process q ∈ rest)
  | _ => true

/-- The step strands no task: a producer that found entries pushes onto a queue that still has
entries, or that the worker looks at again; and the worker's last pass leaves nothing. -/
def undisturbed : Act → System → Bool
  | .advance i, s =>
    match s.producers[i]? with
    | some (.tested q _ false) => !decide (s.worker.Passed q) || !(s.inbox q).isEmpty
    | _ => true
  | .worker c, s =>
    if s.worker.phase = .settle && !s.worker.taskDidWork then settles s.own c s.worker.todo
    else true
  | .test _ _ _, _ => true

/-- A step, under the condition. -/
def StepIf (a : Act) (s s' : System) : Prop :=
  undisturbed a s = true ∧ step a s = some s'

/-! ### The invariant -/

def Op.isPush : Op → Bool
  | .push _ _ _ => true
  | _ => false

/-- A signal is pending or about to be sent. -/
def System.Signalled (s : System) : Prop :=
  s.signal = true ∨ Op.awakenWorker ∈ s.worker.todo ∨ Producer.pushed ∈ s.producers

/-- The operations to come take all that is in the queue. -/
def Covered (todo : List Op) (own : Own → List Entry) (q : Own) : Prop :=
  Op.process q ∈ todo ∨ (∃ n, Op.entries q n ∈ todo ∧ (own q).length ≤ n) ∨ own q = []

structure Inv (s : System) : Prop where
  /-- A queue that was passed is empty, or the worker is going to be woken. -/
  inbox : ∀ q, s.worker.Passed q → s.inbox q = [] ∨ s.Signalled
  /-- The worker pushes right after its test, and nobody else takes entries. -/
  pushes : ∀ q e, s.worker.todo.head? = some (.push q e false) → s.inbox q ≠ []
  tail : ∀ op ∈ s.worker.todo.tail, op.isPush = false
  /-- The lane is looked at last in its phase. -/
  looks : s.worker.phase = .newTasks →
    s.worker.todo = [] ∨ ∃ n, s.worker.todo.getLast? = some (.newTasks n)
  covered : s.worker.Settling → ∀ q, q.isPeriodic = false → Covered s.worker.todo s.own q
  waits : s.worker.phase.isWaiting = true → s.worker.todo = []

theorem inv_start (producers : Nat) : Inv (System.start producers) where
  inbox q _ := Or.inl rfl
  pushes _ _ h := by cases h
  tail _ h := by cases h
  looks _ := Or.inr ⟨0, rfl⟩
  covered _ _ _ := Or.inr (Or.inr rfl)
  waits h := by cases h

/-! ### Operations of the worker -/

section

variable {s s' : System} {op : Op} {rest front : List Op}

/-- What every operation does: it is replaced by others, and work done stays done. -/
structure Replaces (s s' : System) (rest front : List Op) : Prop where
  producers : s'.producers = s.producers
  phase : s'.worker.phase = s.worker.phase
  didWork : s.worker.didWork = true → s'.worker.didWork = true
  taskDidWork : s.worker.taskDidWork = true → s'.worker.taskDidWork = true
  todo : s'.worker.todo = front ++ rest

theorem Replaces.signalled (h : Replaces s s' rest front) (hs : s.worker.todo = op :: rest)
    (hop : op ≠ .awakenWorker) (hsignal : s.signal = true → s'.signal = true) :
    s.Signalled → s'.Signalled := by
  rintro (hpending | htodo | hpushed)
  · exact Or.inl (hsignal hpending)
  · refine Or.inr (Or.inl ?_)
    rw [h.todo]
    rw [hs] at htodo
    exact List.mem_append_right _ ((List.mem_cons.mp htodo).resolve_left (Ne.symm hop))
  · exact Or.inr (Or.inr (h.producers ▸ hpushed))

theorem Replaces.settling (h : Replaces s s' rest front) :
    s'.worker.Settling → s.worker.Settling := by
  unfold Worker.Settling
  rw [h.phase]
  refine Or.imp_left (And.imp_right fun hfalse => ?_)
  by_contra htrue
  rw [h.taskDidWork (by simpa using htrue)] at hfalse
  cases hfalse

/-- An operation that is no look at a queue passes none. -/
theorem Replaces.passed (h : Replaces s s' rest front) (hs : s.worker.todo = op :: rest)
    {q : Inbox} (hlane : q = .lane → s.worker.phase = .newTasks → front ++ rest ≠ [])
    (hevents : q = .events → op = .events → Op.events ∈ front) :
    s'.worker.Passed q → s.worker.Passed q := by
  have hidle : s'.worker.didWork = false → s.worker.didWork = false := by
    intro hfalse
    by_contra htrue
    rw [h.didWork (by simpa using htrue)] at hfalse
    cases hfalse
  cases q with
  | lane =>
    rintro (⟨hphase, htodo, -⟩ | ⟨hphase, hdid⟩ | hsettling)
    · rw [h.todo] at htodo
      exact absurd htodo (hlane rfl (h.phase ▸ hphase))
    · exact Or.inr (Or.inl ⟨h.phase ▸ hphase, hidle hdid⟩)
    · exact Or.inr (Or.inr (h.settling hsettling))
  | events =>
    rintro ⟨hsettling, hnot⟩
    refine ⟨h.settling hsettling, fun hmem => hnot ?_⟩
    rw [h.todo]
    rw [hs] at hmem
    rcases List.mem_cons.mp hmem with hop | hrest
    · exact List.mem_append_left _ (hevents rfl hop.symm)
    · exact List.mem_append_right _ hrest

variable {q : Own} {left i : Nat} {e : Entry}

/-- The queues of the worker stay covered when it adds to none of them. -/
theorem Replaces.covered (h : Replaces s s' rest front) (hs : s.worker.todo = op :: rest)
    (hown : s'.own q = s.own q) (hprocess : op ≠ .process q) (hentries : ∀ n, op ≠ .entries q n) :
    Covered s.worker.todo s.own q → Covered s'.worker.todo s'.own q := by
  have hlater : ∀ {x : Op}, x ∈ s.worker.todo → op ≠ x → x ∈ s'.worker.todo := by
    intro x hx hne
    rw [h.todo]
    rw [hs] at hx
    exact List.mem_append_right _ ((List.mem_cons.mp hx).resolve_left (Ne.symm hne))
  unfold Covered
  rw [hown]
  rintro (hprocessed | ⟨n, hn, hle⟩ | hempty)
  · exact Or.inl (hlater hprocessed hprocess)
  · exact Or.inr (Or.inl ⟨n, hlater hn (hentries n), hle⟩)
  · exact Or.inr (Or.inr hempty)

theorem Replaces.looks (h : Replaces s s' rest front) (hinv : Inv s)
    (hs : s.worker.todo = op :: rest)
    (hlast : ∀ n, op = .newTasks n → front = [] ∨ ∃ m, front.getLast? = some (.newTasks m)) :
    s'.worker.phase = .newTasks →
      s'.worker.todo = [] ∨ ∃ n, s'.worker.todo.getLast? = some (.newTasks n) := by
  intro hphase
  rw [h.phase] at hphase
  rw [h.todo]
  rcases hinv.looks hphase with hnil | ⟨n, hn⟩
  · rw [hs] at hnil
    cases hnil
  · rw [hs] at hn
    cases rest with
    | nil =>
      rw [List.append_nil]
      exact hlast n (Option.some.inj hn)
    | cons x rest =>
      refine Or.inr ⟨n, ?_⟩
      rw [List.getLast?_append, ← List.getLast?_cons_cons (a := op), hn]
      rfl

/-- The phase of new tasks ends with its own operation. -/
theorem Inv.not_last (h : Inv s) (hs : s.worker.todo = op :: rest)
    (hphase : s.worker.phase = .newTasks) (hop : ∀ n, op ≠ .newTasks n) : rest ≠ [] := by
  rintro rfl
  rcases h.looks hphase with hnil | ⟨n, hn⟩
  · rw [hs] at hnil
    cases hnil
  · rw [hs] at hn
    exact hop n (Option.some.inj hn)

/-- **What is left to show of an operation**: the queues it looks at, pushes onto or takes
from. -/
theorem Inv.of_replaces (hinv : Inv s) (hs : s.worker.todo = op :: rest)
    (h : Replaces s s' rest front)
    (hinbox : ∀ q, s'.worker.Passed q → s'.inbox q = [] ∨ s'.Signalled)
    (hpushes : ∀ q e, front.head? = some (.push q e false) → s'.inbox q ≠ [])
    (htail : ∀ x ∈ front.tail, x.isPush = false)
    (hlast : ∀ n, op = .newTasks n → front = [] ∨ ∃ m, front.getLast? = some (.newTasks m))
    (hcovered : s'.worker.Settling → ∀ q, q.isPeriodic = false →
      Covered s'.worker.todo s'.own q) : Inv s' := by
  have hrest : ∀ x ∈ rest, x.isPush = false := by
    intro x hx
    refine hinv.tail x ?_
    rw [hs]
    exact hx
  refine ⟨hinbox, ?_, ?_, h.looks hinv hs hlast, hcovered, ?_⟩
  · intro q e hhead
    rw [h.todo] at hhead
    cases front with
    | nil =>
      have := hrest _ (List.mem_of_mem_head? hhead)
      cases this
    | cons x front => exact hpushes q e hhead
  · intro x hx
    rw [h.todo] at hx
    cases front with
    | nil => exact hrest x (List.mem_of_mem_tail hx)
    | cons y front =>
      rcases List.mem_append.mp hx with hfront | hmem
      · exact htail x hfront
      · exact hrest x hmem
  · intro hwaiting
    rw [h.phase] at hwaiting
    have := hinv.waits hwaiting
    rw [hs] at this
    cases this

/-- An operation that pushes nothing keeps the queues that were passed. -/
theorem Inv.inbox_kept (hinv : Inv s) (hs : s.worker.todo = op :: rest)
    (h : Replaces s s' rest front) (hop : op ≠ .awakenWorker) (hsignal : s'.signal = s.signal)
    {q : Inbox} (hq : s.inbox q = [] → s'.inbox q = [])
    (hlane : q = .lane → (∃ n, op = .newTasks n) → front ++ rest ≠ [])
    (hevents : q = .events → op = .events → Op.events ∈ front) (hpassed : s'.worker.Passed q) :
    s'.inbox q = [] ∨ s'.Signalled := by
  have hbefore : s.worker.Passed q := by
    refine h.passed hs ?_ hevents hpassed
    intro hlane' hphase hnil
    by_cases hlook : ∃ n, op = .newTasks n
    · exact hlane hlane' hlook hnil
    · exact hinv.not_last hs hphase (fun n hn => hlook ⟨n, hn⟩) (List.append_eq_nil_iff.mp hnil).2
  refine (hinv.inbox q hbefore).imp hq (h.signalled hs hop ?_)
  rw [hsignal]
  exact id

/-- In the last pass the operation meets the condition. -/
theorem Inv.settles_here (hinv : Inv s) (hs : s.worker.todo = op :: rest) {c : Choice}
    (hok : undisturbed (.worker c) s = true) (hsettling : s.worker.Settling) :
    settles s.own c (op :: rest) = true := by
  rcases hsettling with ⟨hphase, hwork⟩ | hwaiting
  · simp only [undisturbed] at hok
    rw [hphase, hwork, hs] at hok
    exact hok
  · have := hinv.waits hwaiting
    rw [hs] at this
    cases this

theorem Handling.ops_isPush (h : Handling) : ∀ x ∈ h.ops, x.isPush = false := by
  have hputs : ∀ puts : List Put, ∀ x ∈ puts.map Put.op, x.isPush = false := by
    intro puts x hx
    obtain ⟨put, -, rfl⟩ := List.mem_map.mp hx
    cases put with
    | send q e => rfl
    | addToBlockedQueue e =>
      simp only [Put.op, Suspend.addToBlockedQueue]
      split
      · rfl
      · rfl
    | addToRetryQueue e => rfl
  intro x hx
  cases h with
  | skip => cases hx
  | putBack => cases hx
  | route puts => exact hputs puts x hx
  | exec isPeriodic reported puts => exact hputs puts x hx

/-- An entry is dealt with and the loop goes on. -/
theorem Inv.of_handle (hinv : Inv s) (hs : s.worker.todo = op :: rest) {t : System} {next : Op}
    {h : Handling} (hproducers : t.producers = s.producers) (hworker : t.worker = s.worker)
    (hsignal : t.signal = s.signal) (hop : op ≠ .awakenWorker) (hnext : next.isPush = false)
    (hlook : ∀ n, op = .newTasks n → ∃ m, next = .newTasks m)
    (hevents : op = .events → next = .events)
    (hinbox : ∀ q, s.inbox q = [] → t.inbox q = [])
    (hcovered : s.worker.Settling → ∀ q, q.isPeriodic = false →
      Covered (h.ops ++ next :: rest) t.own q) :
    Inv (t.handle h (next :: rest)) := by
  have hrep : Replaces s (t.handle h (next :: rest)) rest (h.ops ++ [next]) := by
    refine ⟨hproducers, ?_, ?_, ?_, ?_⟩
    · rw [← hworker]
      rfl
    · intro hdid
      show (t.worker.didWork || _) = true
      rw [hworker, hdid]
      rfl
    · intro htask
      show (t.worker.taskDidWork || _) = true
      rw [hworker, htask]
      rfl
    · show h.ops ++ next :: rest = _
      rw [List.append_assoc]
      rfl
  have hfront : ∀ x ∈ h.ops ++ [next], x.isPush = false := by
    intro x hx
    rcases List.mem_append.mp hx with hops | hlast
    · exact h.ops_isPush x hops
    · rw [List.mem_singleton.mp hlast]
      exact hnext
  refine hinv.of_replaces hs hrep ?_ ?_ ?_ ?_ ?_
  · intro q
    refine hinv.inbox_kept hs hrep hop hsignal (hinbox q) ?_ ?_
    · intro _ _
      simp
    · intro _ hop'
      rw [hevents hop']
      simp
  · intro q e hhead
    have := hfront _ (List.mem_of_mem_head? hhead)
    cases this
  · intro x hx
    exact hfront x (List.mem_of_mem_tail hx)
  · intro n hn
    obtain ⟨m, rfl⟩ := hlook n hn
    exact Or.inr ⟨m, by simp⟩
  · intro hsettling
    exact hcovered (hrep.settling hsettling)

/-- The operations to come are only replaced by others, and the flags stay. -/
theorem replaces_withTodo {t : System} (front : List Op) (hproducers : t.producers = s.producers)
    (hworker : t.worker = s.worker) : Replaces s (t.withTodo (front ++ rest)) rest front := by
  unfold System.withTodo
  rw [hworker]
  exact ⟨hproducers, rfl, id, id, rfl⟩

/-! ### Each operation -/

variable {c : Choice}

theorem choice_handling {h : Handling} {p : Handling → Bool}
    (hc : c.handling.filter p = some h) : c = .handle h ∧ p h = true := by
  obtain ⟨hsome, hp⟩ := Option.filter_eq_some_iff.mp hc
  cases c with
  | handle h' => exact ⟨congrArg Choice.handle (Option.some.inj hsome), hp⟩
  | go => cases hsome
  | busyWait => cases hsome
  | otherEvent => cases hsome

theorem Inv.endNewTasks (hinv : Inv s) {processed : Nat}
    (hs : s.worker.todo = .newTasks processed :: rest)
    (hlook : processed = 0 → s.inbox .lane = []) : Inv (s.endNewTasks processed rest) := by
  have hrep : Replaces s (s.endNewTasks processed rest) rest [] :=
    ⟨rfl, rfl, fun hdid => by simp [System.endNewTasks, hdid], id, rfl⟩
  refine hinv.of_replaces hs hrep ?_ (by simp) (by simp) (fun _ _ => Or.inl rfl) ?_
  · intro q hpassed
    cases q with
    | lane =>
      rcases hpassed with ⟨hphase, htodo, hdid⟩ | hlater
      · -- nothing was processed, so the lane was empty
        have : decide (0 < processed) = false := (Bool.or_eq_false_iff.mp hdid).2
        exact Or.inl (hlook (by simpa using this))
      · refine (hinv.inbox .lane (Or.inr ?_)).imp_right (hrep.signalled hs (by simp) id)
        exact hlater.imp_left (And.imp_right fun hdid => (Bool.or_eq_false_iff.mp hdid).1)
    | events => exact hinv.inbox_kept hs hrep (by simp) rfl id (by simp) (by simp) hpassed
  · intro hsettling q hq
    exact hrep.covered hs rfl (by simp) (by simp) (hinv.covered (hrep.settling hsettling) q hq)

/-- A queue that the operation does not belong to stays covered. -/
theorem Inv.covered_kept (hinv : Inv s) (hs : s.worker.todo = op :: rest)
    {own : Own → List Entry} (hown : own q = s.own q) (hprocess : op ≠ .process q)
    (hentries : ∀ n, op ≠ .entries q n) (hsettling : s.worker.Settling)
    (hq : q.isPeriodic = false) (front : List Op) : Covered (front ++ rest) own q := by
  have hrep : Replaces s ({ s with own := own }.withTodo (front ++ rest)) rest front :=
    replaces_withTodo front rfl rfl
  exact hrep.covered hs hown hprocess hentries (hinv.covered hsettling q hq)

theorem Inv.opStep_newTasks (hinv : Inv s) {processed : Nat}
    (hs : s.worker.todo = .newTasks processed :: rest)
    (hstep : s.opStep rest c (.newTasks processed) = some s') : Inv s' := by
  simp only [System.opStep] at hstep
  split at hstep
  · split at hstep
    · rename_i hempty
      rw [← Option.some.inj hstep]
      exact hinv.endNewTasks hs fun _ => hempty
    · rename_i e es hlane
      obtain ⟨h, -, rfl⟩ := Option.map_eq_some_iff.mp hstep
      refine hinv.of_handle hs rfl rfl rfl (by simp) rfl (fun _ _ => ⟨_, rfl⟩) (by simp) ?_ ?_
      · intro q hq
        cases q with
        | lane =>
          rw [hlane] at hq
          cases hq
        | events => exact hq
      · intro hsettling q hq
        rw [List.append_cons]
        exact hinv.covered_kept hs rfl (by simp) (by simp) hsettling hq _
  · rename_i hfull
    rw [← Option.some.inj hstep]
    exact hinv.endNewTasks hs fun hzero => by omega

theorem Inv.opStep_events (hinv : Inv s) (hs : s.worker.todo = .events :: rest)
    (hstep : s.opStep rest c .events = some s') : Inv s' := by
  simp only [System.opStep] at hstep
  split at hstep
  · rename_i hempty
    rw [← Option.some.inj hstep]
    have hrep : Replaces s (s.withTodo rest) rest [] := replaces_withTodo [] rfl rfl
    refine hinv.of_replaces hs hrep ?_ (by simp) (by simp) (by simp) ?_
    · intro q hpassed
      cases q with
      | lane => exact hinv.inbox_kept hs hrep (by simp) rfl id (by simp) (by simp) hpassed
      | events => exact Or.inl hempty
    · intro hsettling q hq
      exact hinv.covered_kept hs rfl (by simp) (by simp) (hrep.settling hsettling) hq []
  · rename_i e es hevents
    obtain ⟨h, -, rfl⟩ := Option.map_eq_some_iff.mp hstep
    refine hinv.of_handle hs rfl rfl rfl (by simp) rfl (by simp) (fun _ => rfl) ?_ ?_
    · intro q hq
      cases q with
      | lane => exact hq
      | events =>
        rw [hevents] at hq
        cases hq
    · intro hsettling q hq
      rw [List.append_cons]
      exact hinv.covered_kept hs rfl (by simp) (by simp) hsettling hq _

/-- An operation that changes only the worker's own queues and what is to be done. -/
theorem Inv.of_withTodo (hinv : Inv s) (hs : s.worker.todo = op :: rest) (own : Own → List Entry)
    (front : List Op) (hop : op ≠ .awakenWorker) (hnew : ∀ n, op ≠ .newTasks n)
    (hevents : op ≠ .events)
    (hpushes : ∀ q e, front.head? = some (.push q e false) → s.inbox q ≠ [])
    (htail : ∀ x ∈ front.tail, x.isPush = false)
    (hcovered : s.worker.Settling → ∀ q, q.isPeriodic = false → Covered (front ++ rest) own q) :
    Inv ({ s with own := own }.withTodo (front ++ rest)) := by
  have hrep : Replaces s ({ s with own := own }.withTodo (front ++ rest)) rest front :=
    replaces_withTodo front rfl rfl
  refine hinv.of_replaces hs hrep ?_ hpushes htail (fun n hn => absurd hn (hnew n)) ?_
  · intro q
    refine hinv.inbox_kept hs hrep hop rfl id ?_ (fun _ h => absurd h hevents)
    rintro - ⟨n, hn⟩
    exact absurd hn (hnew n)
  · intro hsettling
    exact hcovered (hrep.settling hsettling)

theorem Inv.opStep_process (hinv : Inv s) (hs : s.worker.todo = .process q :: rest)
    (hok : undisturbed (.worker c) s = true)
    (hstep : s.opStep rest c (.process q) = some s') : Inv s' := by
  rw [← Option.some.inj hstep]
  refine hinv.of_withTodo hs s.own [.entries q (q.limit (s.own q).length)] (by simp) (by simp)
    (by simp) (by simp) (by simp) ?_
  intro hsettling q' hq'
  by_cases heq : q' = q
  · subst heq
    refine Or.inr (Or.inl ⟨_, List.mem_cons_self, ?_⟩)
    have hsettles := hinv.settles_here hs hok hsettling
    cases q' with
    | retry => exact le_rfl
    | periodic i => cases hq'
    | blocked i =>
      have hle : (s.own (.blocked i)).length ≤ 8 := by simpa [settles] using hsettles
      exact le_min le_rfl hle
  · refine hinv.covered_kept hs rfl ?_ (by simp) hsettling hq' _
    simpa using Ne.symm heq

/-- Entries of a queue that a pass is at: as many as are left, or a pass still to come. -/
theorem Inv.covered_entries (hinv : Inv s)
    (hs : s.worker.todo = .entries q left :: rest) (hsettling : s.worker.Settling)
    (hq : q.isPeriodic = false) :
    Op.process q ∈ rest ∨ (∃ n, Op.entries q n ∈ rest ∧ (s.own q).length ≤ n) ∨
      (s.own q).length ≤ left := by
  have hcovered := hinv.covered hsettling q hq
  rw [hs] at hcovered
  rcases hcovered with hprocess | ⟨n, hn, hle⟩ | hempty
  · exact Or.inl (by simpa using hprocess)
  · rcases List.mem_cons.mp hn with heq | hrest
    · injection heq with _ hleft
      subst hleft
      exact Or.inr (Or.inr hle)
    · exact Or.inr (Or.inl ⟨n, hrest, hle⟩)
  · exact Or.inr (Or.inr (by simp [hempty]))

/-- The pass over a queue ends. -/
theorem Inv.entries_end (hinv : Inv s)
    (hs : s.worker.todo = .entries q left :: rest) (hend : left = 0 ∨ s.own q = []) :
    Inv (s.withTodo rest) := by
  refine hinv.of_withTodo hs s.own [] (by simp) (by simp) (by simp) (by simp) (by simp) ?_
  intro hsettling q' hq'
  by_cases heq : q' = q
  · subst heq
    rcases hinv.covered_entries hs hsettling hq' with hprocess | hlater | hle
    · exact Or.inl hprocess
    · exact Or.inr (Or.inl hlater)
    · refine Or.inr (Or.inr (hend.elim ?_ id))
      rintro rfl
      exact List.eq_nil_of_length_eq_zero (Nat.le_zero.mp hle)
  · refine hinv.covered_kept hs rfl (by simp) ?_ hsettling hq' _
    intro n hn
    injection hn with hqq _
    exact heq hqq.symm

theorem Inv.opStep_entries (hinv : Inv s)
    (hs : s.worker.todo = .entries q left :: rest) (hok : undisturbed (.worker c) s = true)
    (hstep : s.opStep rest c (.entries q left) = some s') : Inv s' := by
  cases left with
  | zero =>
    rw [← Option.some.inj hstep]
    exact hinv.entries_end hs (Or.inl rfl)
  | succ left =>
    simp only [System.opStep] at hstep
    split at hstep
    · rename_i hempty
      rw [← Option.some.inj hstep]
      exact hinv.entries_end hs (Or.inr hempty)
    rename_i e es hq
    obtain ⟨h, hc, rfl⟩ := Option.map_eq_some_iff.mp hstep
    obtain ⟨rfl, hof⟩ := choice_handling hc
    refine hinv.of_handle hs rfl rfl rfl (by simp) rfl (by simp) (by simp) (fun _ => id) ?_
    intro hsettling q' hq'
    by_cases heq : q' = q
    · subst heq
      have htaken : h ≠ .putBack := by
        rintro rfl
        cases q' with
        | retry =>
          have hsettles := hinv.settles_here hs hok hsettling
          simp [settles] at hsettles
        | periodic i => cases hq'
        | blocked i => cases hof
      rw [if_neg htaken]
      unfold Covered
      dsimp only
      rw [Function.update_self]
      rcases hinv.covered_entries hs hsettling hq' with hprocess | ⟨n, hn, hle⟩ | hle
      · exact Or.inl (List.mem_append_right _ (List.mem_cons_of_mem _ hprocess))
      · rw [hq, List.length_cons] at hle
        exact Or.inr (Or.inl ⟨n, List.mem_append_right _ (List.mem_cons_of_mem _ hn), by omega⟩)
      · rw [hq, List.length_cons] at hle
        exact Or.inr (Or.inl ⟨left, List.mem_append_right _ List.mem_cons_self, by omega⟩)
    · rw [List.append_cons]
      refine hinv.covered_kept hs (Function.update_of_ne heq _ _) (by simp) ?_ hsettling hq' _
      intro n hn
      injection hn with hqq _
      exact heq hqq.symm

theorem Inv.opStep_testEmpty (hinv : Inv s) {q : Inbox}
    (hs : s.worker.todo = .testEmpty q e :: rest)
    (hstep : s.opStep rest c (.testEmpty q e) = some s') : Inv s' := by
  rw [← Option.some.inj hstep]
  refine hinv.of_withTodo hs s.own [.push q e (s.inbox q).isEmpty] (by simp) (by simp) (by simp) ?_
    (by simp) fun hsettling q' hq' =>
      hinv.covered_kept hs rfl (by simp) (by simp) hsettling hq' _
  intro q' e' hpush
  injection Option.some.inj hpush with hqq _ hfalse
  subst hqq
  simpa using hfalse

theorem Inv.opStep_push (hinv : Inv s) {q : Inbox} {wasEmpty : Bool}
    (hs : s.worker.todo = .push q e wasEmpty :: rest)
    (hstep : s.opStep rest c (.push q e wasEmpty) = some s') : Inv s' := by
  rw [← Option.some.inj hstep]
  cases wasEmpty with
  | true =>
    -- the worker is about to wake itself
    have hrep : Replaces s ((s.pushInbox q e).withTodo (.awakenWorker :: rest)) rest
        [.awakenWorker] := replaces_withTodo [.awakenWorker] rfl rfl
    refine hinv.of_replaces hs hrep (fun _ _ => Or.inr (Or.inr (Or.inl List.mem_cons_self)))
      (by simp) (by simp) (by simp) ?_
    intro hsettling q' hq'
    exact hinv.covered_kept hs rfl (by simp) (by simp) (hrep.settling hsettling) hq'
      [.awakenWorker]
  | false =>
    have hrep : Replaces s ((s.pushInbox q e).withTodo rest) rest [] :=
      replaces_withTodo [] rfl rfl
    have hne : s.inbox q ≠ [] := hinv.pushes q e (by rw [hs]; rfl)
    refine hinv.of_replaces hs hrep ?_ (by simp) (by simp) (by simp) ?_
    · intro q'
      refine hinv.inbox_kept hs hrep (by simp) rfl ?_ (by simp) (by simp)
      intro hempty
      have hqq : q' ≠ q := fun hqq => hne (hqq ▸ hempty)
      exact (Function.update_of_ne hqq _ _).trans hempty
    · intro hsettling q' hq'
      exact hinv.covered_kept hs rfl (by simp) (by simp) (hrep.settling hsettling) hq' []

theorem Inv.opStep_awakenWorker (hinv : Inv s) (hs : s.worker.todo = .awakenWorker :: rest)
    (hstep : s.opStep rest c .awakenWorker = some s') : Inv s' := by
  rw [← Option.some.inj hstep]
  have hrep : Replaces s { s.withTodo rest with signal := true } rest [] :=
    ⟨rfl, rfl, id, id, rfl⟩
  refine hinv.of_replaces hs hrep (fun _ _ => Or.inr (Or.inl rfl)) (by simp) (by simp) (by simp) ?_
  intro hsettling q hq
  exact hinv.covered_kept hs rfl (by simp) (by simp) (hrep.settling hsettling) hq []

theorem Inv.opStep_add (hinv : Inv s) (hs : s.worker.todo = .add q e :: rest)
    (hok : undisturbed (.worker c) s = true)
    (hstep : s.opStep rest c (.add q e) = some s') : Inv s' := by
  rw [← Option.some.inj hstep]
  refine hinv.of_withTodo hs (Function.update s.own q (s.own q ++ [e])) [] (by simp) (by simp)
    (by simp) (by simp) (by simp) ?_
  intro hsettling q' hq'
  by_cases heq : q' = q
  · subst heq
    have hsettles := hinv.settles_here hs hok hsettling
    refine Or.inl ?_
    simpa [settles, hq'] using hsettles
  · exact hinv.covered_kept hs (Function.update_of_ne heq _ _) (by simp) (by simp) hsettling hq' _

/-- **An operation of the worker keeps the invariant.** -/
theorem Inv.opStep (hinv : Inv s) (hs : s.worker.todo = op :: rest)
    (hok : undisturbed (.worker c) s = true) (hstep : s.opStep rest c op = some s') : Inv s' := by
  cases op with
  | newTasks processed => exact hinv.opStep_newTasks hs hstep
  | events => exact hinv.opStep_events hs hstep
  | process q => exact hinv.opStep_process hs hok hstep
  | entries q left => exact hinv.opStep_entries hs hok hstep
  | testEmpty q e => exact hinv.opStep_testEmpty hs hstep
  | push q e wasEmpty => exact hinv.opStep_push hs hstep
  | awakenWorker => exact hinv.opStep_awakenWorker hs hstep
  | add q e => exact hinv.opStep_add hs hok hstep

/-! ### Phases -/

theorem continueBlockedTasks_isPush (force : Bool) (iteration : Nat) :
    ∀ op ∈ continueBlockedTasks force iteration, op.isPush = false := by
  intro op hop
  simp only [continueBlockedTasks, List.mem_append] at hop
  rcases hop with ((((((((hop | hop) | hop) | hop) | hop) | hop) | hop) | hop) | hop) | hop
  · rw [List.mem_singleton.mp hop]
    rfl
  all_goals
    split at hop
    · rw [List.mem_singleton.mp hop]
      rfl
    · cases hop

theorem events_mem_continueBlockedTasks (force : Bool) (iteration : Nat) :
    Op.events ∈ continueBlockedTasks force iteration := by
  simp [continueBlockedTasks]

/-- A forced pass goes over every queue of the worker. -/
theorem process_mem_continueBlockedTasks (iteration : Nat) (q : Own) :
    Op.process q ∈ continueBlockedTasks true iteration := by
  have hfour : ∀ i : Fin 4, i = 0 ∨ i = 1 ∨ i = 2 ∨ i = 3 := by decide
  cases q with
  | blocked i => rcases hfour i with rfl | rfl | rfl | rfl <;> simp [continueBlockedTasks]
  | periodic i => rcases hfour i with rfl | rfl | rfl | rfl <;> simp [continueBlockedTasks]
  | retry => simp [continueBlockedTasks]

theorem inv_nextIteration (s : System) : Inv s.nextIteration where
  inbox q hpassed := by
    exfalso
    cases q with
    | lane => rcases hpassed with ⟨-, htodo, -⟩ | ⟨hphase, -⟩ | ⟨hphase, -⟩ | hwaiting <;> contradiction
    | events => rcases hpassed.1 with ⟨hphase, -⟩ | hwaiting <;> contradiction
  pushes _ _ h := by cases h
  tail _ h := by cases h
  looks _ := Or.inr ⟨0, rfl⟩
  covered h := by rcases h with ⟨hphase, -⟩ | hwaiting <;> contradiction
  waits h := by cases h

/-- The worker goes on to a phase with a pass over its queues. -/
theorem Inv.of_pass {phase : Phase} {force : Bool} {iteration : Nat}
    (hs' : s'.worker.phase = phase)
    (htodo : s'.worker.todo = continueBlockedTasks force iteration)
    (hnew : phase ≠ .newTasks) (hwaiting : phase.isWaiting = false)
    (hforce : phase = .settle → force = true)
    (hlane : s'.worker.Passed .lane → s'.inbox .lane = [] ∨ s'.Signalled) : Inv s' where
  inbox q hpassed := by
    cases q with
    | lane => exact hlane hpassed
    | events =>
      refine absurd ?_ hpassed.2
      rw [htodo]
      exact events_mem_continueBlockedTasks _ _
  pushes q e hhead := by
    rw [htodo] at hhead
    have := continueBlockedTasks_isPush _ _ _ (List.mem_of_mem_head? hhead)
    cases this
  tail op hop := by
    rw [htodo] at hop
    exact continueBlockedTasks_isPush _ _ _ (List.mem_of_mem_tail hop)
  looks h := absurd (hs'.symm.trans h) hnew
  covered hsettling q hq := by
    rcases hsettling with ⟨hphase, -⟩ | hwait
    · rw [htodo, hforce (hs'.symm.trans hphase)]
      exact Or.inl (process_mem_continueBlockedTasks _ q)
    · rw [hs', hwaiting] at hwait
      cases hwait
  waits hwait := by
    rw [hs', hwaiting] at hwait
    cases hwait

/-- **The worker goes on to its next phase.** -/
theorem Inv.phaseStep (hinv : Inv s) (hs : s.worker.todo = []) (hstep : s.phaseStep c = some s') :
    Inv s' := by
  have hsignalled : s.Signalled → s.signal = true ∨ Producer.pushed ∈ s.producers := by
    unfold System.Signalled
    rw [hs]
    simp
  unfold System.phaseStep at hstep
  cases hphase : s.worker.phase with
  | newTasks =>
    rw [hphase] at hstep
    rw [← Option.some.inj hstep]
    refine Inv.of_pass rfl rfl (by simp) rfl (by simp) ?_
    rintro (⟨hphase', -⟩ | ⟨-, hdid⟩ | ⟨hphase', -⟩ | hwaiting)
    · cases hphase'
    · refine (hinv.inbox .lane (Or.inl ⟨hphase, hs, hdid⟩)).imp_right fun h => ?_
      exact (hsignalled h).imp_right Or.inr
    · cases hphase'
    · cases hwaiting
  | continueBlocked =>
    rw [hphase] at hstep
    dsimp only at hstep
    split at hstep
    · rw [← Option.some.inj hstep]
      exact inv_nextIteration _
    · rename_i hidle
      rw [← Option.some.inj hstep]
      refine Inv.of_pass rfl rfl (by simp) rfl (fun _ => rfl) fun _ => ?_
      have hdid : s.worker.didWork = false := by
        by_contra htrue
        exact hidle (by simp [htrue])
      refine (hinv.inbox .lane (Or.inr (Or.inl ⟨hphase, hdid⟩))).imp_right fun h => ?_
      exact (hsignalled h).imp_right Or.inr
  | settle =>
    rw [hphase] at hstep
    dsimp only at hstep
    split at hstep
    · rw [← Option.some.inj hstep]
      exact inv_nextIteration _
    · rename_i hidle
      rw [← Option.some.inj hstep]
      have hsettling : s.worker.Settling := Or.inl ⟨hphase, by simpa using hidle⟩
      refine ⟨?_, hinv.pushes, hinv.tail, by simp, fun _ => hinv.covered hsettling, fun _ => hs⟩
      intro q _
      have hpassed : s.worker.Passed q := by
        cases q with
        | lane => exact Or.inr (Or.inr hsettling)
        | events => exact ⟨hsettling, by simp [hs]⟩
      exact (hinv.inbox q hpassed).imp_right fun h => (hsignalled h).imp_right Or.inr
  | waiting timeout =>
    rw [hphase] at hstep
    dsimp only at hstep
    split at hstep
    · rw [← Option.some.inj hstep]
      refine Inv.of_pass rfl rfl (by simp) rfl (by simp) ?_
      rintro (⟨hphase', -⟩ | ⟨hphase', -⟩ | ⟨hphase', -⟩ | hwaiting)
      · cases hphase'
      · cases hphase'
      · cases hphase'
      · cases hwaiting
    · cases hstep
  | rescan =>
    rw [hphase] at hstep
    rw [← Option.some.inj hstep]
    exact inv_nextIteration _

/-! ### Producers -/

/-- A producer takes a step: the others are where they were. -/
theorem pushed_mem_set {producers : List Producer} {p p' : Producer}
    (hi : producers[i]? = some p) (hp : p ≠ .pushed) (hmem : Producer.pushed ∈ producers) :
    Producer.pushed ∈ producers.set i p' := by
  obtain ⟨j, hj⟩ := List.mem_iff_getElem?.mp hmem
  refine List.mem_iff_getElem?.mpr ⟨j, ?_⟩
  rw [List.getElem?_set_ne ?_]
  · exact hj
  · rintro rfl
    rw [hi] at hj
    exact hp (Option.some.inj hj)

/-- A producer changes nothing of the worker and adds to the queues. -/
theorem Inv.of_producer (hinv : Inv s) (hworker : s'.worker = s.worker) (hown : s'.own = s.own)
    (hgrow : ∀ q, s.inbox q ≠ [] → s'.inbox q ≠ [])
    (hinbox : ∀ q, s.worker.Passed q → s'.inbox q = [] ∨ s'.Signalled) : Inv s' := by
  refine ⟨?_, ?_, ?_, ?_, ?_, ?_⟩
  · rw [hworker]
    exact hinbox
  · rw [hworker]
    exact fun q e h => hgrow q (hinv.pushes q e h)
  · rw [hworker]
    exact hinv.tail
  · rw [hworker]
    exact hinv.looks
  · rw [hworker, hown]
    exact hinv.covered
  · rw [hworker]
    exact hinv.waits

theorem System.pushInbox_ne_nil (s : System) (q q' : Inbox) (e : Entry) (h : s.inbox q' ≠ []) :
    (s.pushInbox q e).inbox q' ≠ [] := by
  unfold System.pushInbox
  by_cases hq : q' = q
  · subst hq
    simp
  · simpa [hq] using h

theorem Inv.test (hinv : Inv s) {q : Inbox} (hstep : s.test i q e = some s') : Inv s' := by
  unfold System.test at hstep
  split at hstep
  · rename_i hi
    rw [← Option.some.inj hstep]
    refine hinv.of_producer rfl rfl (fun _ => id) fun q' hpassed => ?_
    refine (hinv.inbox q' hpassed).imp_right (Or.imp_right (Or.imp_right ?_))
    exact pushed_mem_set hi (by simp)
  · cases hstep

theorem Inv.advance (hinv : Inv s) (hok : undisturbed (.advance i) s = true)
    (hstep : s.advance i = some s') : Inv s' := by
  unfold System.advance at hstep
  split at hstep
  · rename_i q e wasEmpty hi
    rw [← Option.some.inj hstep]
    have hlt : i < s.producers.length := (List.getElem?_eq_some_iff.mp hi).1
    refine hinv.of_producer rfl rfl (fun q' => s.pushInbox_ne_nil q q' e) fun q' hpassed => ?_
    cases wasEmpty with
    | true =>
      -- it signals next
      exact Or.inr (Or.inr (Or.inr (List.mem_set hlt _)))
    | false =>
      simp only [undisturbed, hi] at hok
      refine (hinv.inbox q' hpassed).imp ?_ (Or.imp_right (Or.imp_right ?_))
      · intro hempty
        have hqq : q' ≠ q := by
          rintro rfl
          simp [hpassed, hempty] at hok
        exact (Function.update_of_ne hqq _ _).trans hempty
      · exact pushed_mem_set hi (by simp)
  · rw [← Option.some.inj hstep]
    exact hinv.of_producer rfl rfl (fun _ => id) fun _ _ => Or.inr (Or.inl rfl)
  · cases hstep

/-! ### Runs -/

/-- **A step under the condition keeps the invariant.** -/
theorem Inv.step {a : Act} (hinv : Inv s) (h : StepIf a s s') : Inv s' := by
  obtain ⟨hok, hstep⟩ := h
  cases a with
  | worker c =>
    have hstep : s.workerStep c = some s' := hstep
    unfold System.workerStep at hstep
    split at hstep
    · rename_i hs
      exact hinv.phaseStep hs hstep
    · rename_i op rest hs
      exact hinv.opStep hs hok hstep
  | test i q e => exact hinv.test hstep
  | advance i => exact hinv.advance hok hstep

end

/-- **No task is stranded.**  In a run of steps under the condition, a worker that waits without
a timeout, with no signal pending or about to be sent, has nothing in its lane, its event
queue, its blocked queues and its retry queue. -/
theorem not_stranded {acts : List Act} {producers : Nat} {s : System}
    (h : Along StepIf acts (System.start producers) s) (hwaits : s.worker.phase = .waiting none)
    (hsignal : s.signal = false) (hpushed : Producer.pushed ∉ s.producers) :
    (∀ q, s.inbox q = []) ∧ (∀ i, s.own (.blocked i) = []) ∧ s.own .retry = [] := by
  have hinv : Inv s :=
    h.invariant (fun a _ s s' hs hstep => hs.step hstep) (inv_start producers)
  have htodo : s.worker.todo = [] := hinv.waits (by rw [hwaits]; rfl)
  have hsettling : s.worker.Settling := Or.inr (by rw [hwaits]; rfl)
  have hown : ∀ q, q.isPeriodic = false → s.own q = [] := by
    intro q hq
    have hcovered := hinv.covered hsettling q hq
    rw [htodo] at hcovered
    rcases hcovered with hprocess | ⟨n, hn, -⟩ | hempty
    · cases hprocess
    · cases hn
    · exact hempty
  refine ⟨fun q => ?_, fun i => hown _ rfl, hown _ rfl⟩
  have hpassed : s.worker.Passed q := by
    cases q with
    | lane => exact Or.inr (Or.inr hsettling)
    | events => exact ⟨hsettling, by simp [htodo]⟩
  rcases hinv.inbox q hpassed with hempty | hpending | hawaken | hmem
  · exact hempty
  · rw [hsignal] at hpending
    cases hpending
  · rw [htodo] at hawaken
    cases hawaken
  · exact absurd hmem hpushed

/-- What is seen of a state in which the worker waits. -/
def System.view (s : System) : Phase × Bool × List Producer × List Entry × List Entry :=
  (s.worker.phase, s.signal, s.producers, s.inbox .lane, s.own .retry)

/-- A script that ends in a wait. -/
theorem exists_along_waiting (next : Act → System → Option System) (acts : List Act)
    (producers : Nat) {ps : List Producer} {lane retry : List Entry}
    (h : (acts.foldlM (fun s a => next a s) (System.start producers)).map System.view =
      some (.waiting none, false, ps, lane, retry)) :
    ∃ s, Along (fun a s s' => next a s = some s') acts (System.start producers) s ∧
      s.worker.phase = .waiting none ∧ s.signal = false ∧ s.producers = ps ∧
      s.inbox .lane = lane ∧ s.own .retry = retry := by
  obtain ⟨s, hrun, hview⟩ := Option.map_eq_some_iff.mp h
  refine ⟨s, Along.of_foldlM hrun, ?_⟩
  simpa [System.view, Prod.ext_iff] using hview

def stepIf (a : Act) (s : System) : Option System :=
  if undisturbed a s then step a s else none

theorem stepIf_eq_some {a : Act} {s s' : System} (h : stepIf a s = some s') : StepIf a s s' := by
  unfold stepIf at h
  split at h
  · rename_i hok
    exact ⟨hok, h⟩
  · cases h

def task (id : Nat) : Entry := ⟨id, false, 0, 0⟩

/-- A task is pushed and run, and the worker goes to sleep. -/
def oneTask : List Act :=
  [.test 0 .lane (task 0), .advance 0, .advance 0, .worker (.handle (.exec false false []))] ++
    List.replicate 93 (.worker .go)

theorem not_stranded_after_task : ∃ s : System, Along StepIf oneTask (System.start 1) s ∧
    s.worker.phase = .waiting none ∧ (∀ q, s.inbox q = []) ∧ (∀ i, s.own (.blocked i) = []) ∧
      s.own .retry = [] := by
  have hscript : (oneTask.foldlM (fun s a => stepIf a s) (System.start 1)).map System.view =
      some (.waiting none, false, [.idle], [], []) := by decide +kernel
  obtain ⟨s, hrun, hphase, hsignal, hproducers, -⟩ := exists_along_waiting stepIf oneTask 1 hscript
  have hrun := hrun.mono fun a s s' h => stepIf_eq_some h
  exact ⟨s, hrun, hphase, not_stranded hrun hphase hsignal (by simp [hproducers])⟩

/-- A producer finds the first task in the lane, and pushes when the worker is asleep. -/
def lostWakeup : List Act :=
  [.test 0 .lane (task 0), .advance 0, .test 1 .lane (task 1), .advance 0,
    .worker (.handle (.exec false false []))] ++ List.replicate 93 (.worker .go) ++ [.advance 1]

/-- The container of a task is plugged whenever the worker retries it. -/
def stillPlugged : List Act :=
  [.test 0 .lane (task 0), .advance 0, .advance 0,
    .worker (.handle (.route [.addToRetryQueue (task 0)]))] ++
    List.replicate 98 (.worker (.handle .putBack))

/-- **Tasks are stranded**: one that was pushed without a signal, and one that is to be retried.
The worker waits without a timeout, and nobody is going to wake it. -/
theorem stranded_tasks :
    (∃ s, Along (fun a s s' => step a s = some s') lostWakeup (System.start 2) s ∧
      s.worker.phase = .waiting none ∧ s.signal = false ∧ s.producers = [.idle, .idle] ∧
      s.inbox .lane = [task 1] ∧ s.own .retry = []) ∧
    ∃ s, Along (fun a s s' => step a s = some s') stillPlugged (System.start 1) s ∧
      s.worker.phase = .waiting none ∧ s.signal = false ∧ s.producers = [.idle] ∧
      s.inbox .lane = [] ∧ s.own .retry = [task 0] :=
  ⟨exists_along_waiting step lostWakeup 2 (by decide +kernel),
    exists_along_waiting step stillPlugged 1 (by decide +kernel)⟩

end Suspend
end Runtime
end IowarpCore
