/-
A worker that goes to sleep, and the producers that wake it.

Follows `Worker::Run`, `ProcessNewTasks`, `ContinueBlockedTasks` with the functions it calls,
`GetSuspendPeriod` and `SuspendMe` of `worker.cc`, and `EventManager::Wait`.  Producers are
the places that push onto a lane or an event queue: `RouteLocal`, `SendRuntimeClient`,
`SendShm`, the admin's `ClientRecv` and `EndTask` all test `Empty()`, push, and call
`AwakenWorker` if the test found nothing.

Every queue operation is one step, of the worker or of a producer.  The worker carries out a
list of operations, `todo`, and at its end goes on to the next `Phase` of its loop.  A task
that it runs comes to a list of things put on its queues.  What else the code reads comes with
the step: what becomes of an entry, whether the time of busy waiting is over, and whether
another file descriptor ends a wait.  Workers with lanes of a GPU never sleep and are not here.
-/
import IowarpCore.Runtime.Worker

namespace IowarpCore
namespace Runtime
namespace Suspend

/-- A `RunContext` in a queue; `isNull` if it is null or its task is. -/
structure Entry where
  id : Nat
  isNull : Bool
  yieldTime : ℚ
  yieldCount : Nat
deriving DecidableEq, Repr

/-- The queues that producers push onto. -/
inductive Inbox where
  | lane
  | events
deriving DecidableEq, Repr

instance fourQueues : @NeZero Nat Zero.ofOfNat0 4 := ⟨Nat.succ_ne_zero 3⟩

/-- The queues that only the worker uses. -/
inductive Own where
  | blocked (i : Fin 4)
  | periodic (i : Fin 4)
  | retry
deriving DecidableEq, Repr

/-- How many of so many entries a pass over the queue takes. -/
def Own.limit : Own → Nat → Nat
  | .retry, size => size
  | _, size => min size 8

/-- What a task does to the queues of the worker that runs or routes it. -/
inductive Put where
  /-- Tests the queue, pushes, and wakes the worker if the test found nothing. -/
  | send (q : Inbox) (e : Entry)
  | addToBlockedQueue (e : Entry)
  | addToRetryQueue (e : Entry)
deriving DecidableEq, Repr

/-- The operations of a worker. -/
inductive Op where
  /-- `ProcessNewTasks`, with so many processed. -/
  | newTasks (processed : Nat)
  /-- `ProcessEventQueue`. -/
  | events
  /-- `ProcessRetryQueue`, `ProcessBlockedQueue` or `ProcessPeriodicQueue`. -/
  | process (q : Own)
  /-- Its loop, with so many entries to go. -/
  | entries (q : Own) (left : Nat)
  | testEmpty (q : Inbox) (e : Entry)
  | push (q : Inbox) (e : Entry) (wasEmpty : Bool)
  | awakenWorker
  | add (q : Own) (e : Entry)
deriving DecidableEq, Repr

/-- `AddToBlockedQueue`: the queue, and the entry with its blocks counted. -/
def addToBlockedQueue (e : Entry) : Op :=
  if e.yieldTime = 0 then
    .add (.blocked (blockedIndex (e.yieldCount + 1))) { e with yieldCount := e.yieldCount + 1 }
  else .add (.periodic (periodicIndex e.yieldTime)) e

def Put.op : Put → Op
  | .send q e => .testEmpty q e
  | .addToBlockedQueue e => Suspend.addToBlockedQueue e
  | .addToRetryQueue e => .add .retry e

/-- What becomes of an entry that was popped. -/
inductive Handling where
  /-- It is null, its coroutine is over, or its container is unknown. -/
  | skip
  /-- The container of a task to be retried is plugged or gone; the time of a periodic task
  has not come. -/
  | putBack
  /-- It is routed and not executed here. -/
  | route (puts : List Put)
  /-- `ExecTask`. -/
  | exec (isPeriodic reported : Bool) (puts : List Put)
deriving DecidableEq, Repr

namespace Handling

/-- `SetTaskDidWork(true)`: a task that is not periodic, or that reports work. -/
def didWork : Handling → Bool
  | .exec isPeriodic reported _ => !isPeriodic || reported
  | _ => false

def isExec : Handling → Bool
  | .exec _ _ _ => true
  | _ => false

def ops : Handling → List Op
  | .route puts => puts.map Put.op
  | .exec _ _ puts => puts.map Put.op
  | _ => []

/-- What may become of an entry of a lane or of an event queue. -/
def ofInbox : Inbox → Handling → Bool
  | _, .putBack => false
  | .events, .route _ => false
  | _, _ => true

/-- What may become of an entry of the worker's own queues. -/
def ofOwn : Own → Handling → Bool
  | .blocked _, .putBack => false
  | .blocked _, .route _ => false
  | _, _ => true

end Handling

/-- Where the worker is in its loop. -/
inductive Phase where
  /-- `ProcessNewTasks`. -/
  | newTasks
  /-- `ContinueBlockedTasks(false)`. -/
  | continueBlocked
  /-- `ContinueBlockedTasks(true)` of `SuspendMe`, before the wait. -/
  | settle
  /-- `EventManager::Wait`; without a timeout it waits indefinitely. -/
  | waiting (timeout : Option ℚ)
  /-- `ContinueBlockedTasks(true)` after the wait. -/
  | rescan
deriving DecidableEq, Repr

structure Worker where
  phase : Phase
  todo : List Op
  didWork : Bool
  taskDidWork : Bool
  iteration : Nat
deriving DecidableEq, Repr

/-- Where a producer is between its test and its signal. -/
inductive Producer where
  | idle
  | tested (q : Inbox) (e : Entry) (wasEmpty : Bool)
  /-- It pushed onto a queue it had found empty, and is to call `AwakenWorker`. -/
  | pushed
deriving DecidableEq, Repr

structure System where
  inbox : Inbox → List Entry
  own : Own → List Entry
  /-- `SIGUSR1` is pending. -/
  signal : Bool
  worker : Worker
  producers : List Producer

/-! ### The worker -/

/-- `ContinueBlockedTasks`, in the iteration with this number. -/
def continueBlockedTasks (force : Bool) (iteration : Nat) : List Op :=
  let every (n : Nat) (op : Op) : List Op := if force || iteration % n = 0 then [op] else []
  [.events] ++ every 32 (.process .retry) ++
    every 2 (.process (.blocked 0)) ++ every 4 (.process (.blocked 1)) ++
    every 8 (.process (.blocked 2)) ++ every 16 (.process (.blocked 3)) ++
    every 4 (.process (.periodic 0)) ++ every 8 (.process (.periodic 1)) ++
    every 64 (.process (.periodic 2)) ++ every 128 (.process (.periodic 3))

/-- `GetSuspendPeriod`. -/
def getSuspendPeriod (own : Own → List Entry) : Option ℚ :=
  (List.finRange 4).foldl
    (fun found i =>
      match (own (.periodic i)).head? with
      | none => found
      | some e =>
        if e.isNull then found
        else if found.all fun least => e.yieldTime < least then some e.yieldTime else found)
    none

/-- What the code learns during a step of the worker. -/
inductive Choice where
  | go
  | handle (h : Handling)
  /-- The time of busy waiting is not over. -/
  | busyWait
  /-- Another file descriptor is ready. -/
  | otherEvent
deriving DecidableEq, Repr

def Choice.handling : Choice → Option Handling
  | .handle h => some h
  | _ => none

namespace System

def withTodo (s : System) (todo : List Op) : System :=
  { s with worker := { s.worker with todo := todo } }

/-- The loop of `Run` starts again. -/
def nextIteration (s : System) : System :=
  { s with worker := { s.worker with
      phase := .newTasks
      todo := [.newTasks 0]
      didWork := false
      taskDidWork := false } }

def pushInbox (s : System) (q : Inbox) (e : Entry) : System :=
  { s with inbox := Function.update s.inbox q (s.inbox q ++ [e]) }

def pushOwn (s : System) (q : Own) (e : Entry) : System :=
  { s with own := Function.update s.own q (s.own q ++ [e]) }

/-- The entry is dealt with, and then the worker goes on. -/
def handle (s : System) (h : Handling) (rest : List Op) : System :=
  let taskDidWork := s.worker.taskDidWork || h.didWork
  { s with worker := { s.worker with
      todo := h.ops ++ rest
      taskDidWork := taskDidWork
      didWork := s.worker.didWork || h.isExec && taskDidWork } }

/-- `ProcessNewTasks` returns, with so many processed. -/
def endNewTasks (s : System) (processed : Nat) (rest : List Op) : System :=
  { s with worker := { s.worker with
      todo := rest
      didWork := s.worker.didWork || 0 < processed } }

/-- One operation of the worker. -/
def opStep (s : System) (rest : List Op) (c : Choice) : Op → Option System
  | .newTasks processed =>
    if processed < 16 then
      match s.inbox .lane with
      | [] => some (s.endNewTasks processed rest)
      | _ :: es => (c.handling.filter (Handling.ofInbox .lane)).map fun h =>
        { s with inbox := Function.update s.inbox .lane es }.handle h
          (.newTasks (processed + 1) :: rest)
    else some (s.endNewTasks processed rest)
  | .events =>
    match s.inbox .events with
    | [] => some (s.withTodo rest)
    | _ :: es => (c.handling.filter (Handling.ofInbox .events)).map fun h =>
      { s with inbox := Function.update s.inbox .events es }.handle h (.events :: rest)
  | .process q => some (s.withTodo (.entries q (q.limit (s.own q).length) :: rest))
  | .entries _ 0 => some (s.withTodo rest)
  | .entries q (left + 1) =>
    match s.own q with
    | [] => some (s.withTodo rest)
    | e :: es => (c.handling.filter (Handling.ofOwn q)).map fun h =>
      let es := if h = .putBack then es ++ [e] else es
      { s with own := Function.update s.own q es }.handle h (.entries q left :: rest)
  | .testEmpty q e => some (s.withTodo (.push q e (s.inbox q).isEmpty :: rest))
  | .push q e wasEmpty =>
    some ((s.pushInbox q e).withTodo (if wasEmpty then .awakenWorker :: rest else rest))
  | .awakenWorker => some { s.withTodo rest with signal := true }
  | .add q e => some ((s.pushOwn q e).withTodo rest)

/-- The worker goes on to the next phase. -/
def phaseStep (s : System) (c : Choice) : Option System :=
  match s.worker.phase with
  | .newTasks =>
    some { s with worker := { s.worker with
      phase := .continueBlocked
      todo := continueBlockedTasks false s.worker.iteration } }
  | .continueBlocked =>
    let s := { s with worker := { s.worker with iteration := s.worker.iteration + 1 } }
    if s.worker.didWork || c = .busyWait then some s.nextIteration
    else some { s with worker := { s.worker with
      phase := .settle
      todo := continueBlockedTasks true s.worker.iteration } }
  | .settle =>
    if s.worker.taskDidWork then some s.nextIteration
    else some { s with worker := { s.worker with phase := .waiting (getSuspendPeriod s.own) } }
  | .waiting timeout =>
    if s.signal || timeout.isSome || c = .otherEvent then
      some { s with
        signal := false
        worker := { s.worker with
          phase := .rescan
          todo := continueBlockedTasks true s.worker.iteration } }
    else none
  | .rescan => some s.nextIteration

def workerStep (s : System) (c : Choice) : Option System :=
  match s.worker.todo with
  | [] => s.phaseStep c
  | op :: rest => s.opStep rest c op

/-! ### Producers -/

def setProducer (s : System) (i : Nat) (p : Producer) : System :=
  { s with producers := s.producers.set i p }

/-- `was_empty = Empty()`, for an entry to be pushed. -/
def test (s : System) (i : Nat) (q : Inbox) (e : Entry) : Option System :=
  match s.producers[i]? with
  | some .idle => some (s.setProducer i (.tested q e (s.inbox q).isEmpty))
  | _ => none

/-- `Push`, or the call of `AwakenWorker` after it. -/
def advance (s : System) (i : Nat) : Option System :=
  match s.producers[i]? with
  | some (.tested q e wasEmpty) =>
    some ((s.pushInbox q e).setProducer i (if wasEmpty then .pushed else .idle))
  | some .pushed => some { s.setProducer i .idle with signal := true }
  | _ => none

end System

/-! ### Runs -/

inductive Act where
  | worker (c : Choice)
  | test (i : Nat) (q : Inbox) (e : Entry)
  | advance (i : Nat)
deriving DecidableEq, Repr

def step (a : Act) (s : System) : Option System :=
  match a with
  | .worker c => s.workerStep c
  | .test i q e => s.test i q e
  | .advance i => s.advance i

/-- A worker that starts its loop, and so many producers. -/
def System.start (producers : Nat) : System where
  inbox := fun _ => []
  own := fun _ => []
  signal := false
  worker := ⟨.newTasks, [.newTasks 0], false, false, 0⟩
  producers := List.replicate producers .idle

end Suspend
end Runtime
end IowarpCore
