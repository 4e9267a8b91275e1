/-
Tasks, the queues they wait in, and the containers they run on.

A task, its `RunContext` and its `Future` belong together and share one id.  What a task's
`Run` does between two points where the worker takes over again is a `Body`.  A loop of the
source is unrolled there: a run is finite and sees only finitely many of its actions.

Every queue of every worker is a value of `queue`.  In the event queues and in the queue of
`SendOut` a task stands for its own end, in all the others for work still to be done on it.
-/
import Mathlib.Data.Rat.Defs

namespace IowarpCore
namespace Runtime

abbrev TaskId := Nat
abbrev WorkerId := Nat
abbrev NodeId := Nat

/-- The pool and the container id a task is addressed to. -/
abbrev Address := Nat

/-- A `Container` object. -/
abbrev Container := Nat

/-- What a task is created with.  A period, in microseconds, makes it periodic. -/
structure Header where
  address : Address
  period : Option ℚ
  fireAndForget : Bool
  deriving DecidableEq, Repr

/-- What a coroutine does next.  The future of the `n`th subtask it submits is in its slot
`n` until it is awaited. -/
inductive Body where
  | coReturn
  | submit (header : Header) (body rest : Body)
  | coAwait (slot : Nat) (rest : Body)
  | poll (slot : Nat) (complete pending : Body)
  | yield (us : ℚ) (rest : Body)
  deriving DecidableEq, Repr

/-- A suspended coroutine: its futures, and the `co_await` it is suspended at. -/
structure Frame where
  slots : List (Option TaskId)
  point : Body
  deriving DecidableEq, Repr

/-- A future that was awaited, or never was there, is null. -/
def slot (slots : List (Option TaskId)) (i : Nat) : Option TaskId := (slots[i]?).join

structure RunContext where
  container : Option Container
  /-- The worker whose `event_queue_` this is. -/
  worker : Option WorkerId
  coroHandle : Option Frame
  isYielded : Bool
  yieldTime : ℚ
  yieldCount : Nat
  deriving DecidableEq, Repr

structure Task where
  header : Header
  body : Body
  /-- The task that submitted it, from its future. -/
  parent : Option TaskId
  /-- The task of another node that it is a replica of; `TASK_REMOTE`. -/
  origin : Option TaskId
  hasContext : Bool
  routed : Bool
  started : Bool
  /-- `FUTURE_COMPLETE`. -/
  complete : Bool
  ctx : RunContext
  deriving DecidableEq, Repr

inductive Queue where
  | lane (w : WorkerId)
  | events (w : WorkerId)
  | periodic (w : WorkerId) (i : Fin 4)
  | blocked (w : WorkerId) (i : Fin 4)
  | retry (w : WorkerId)
  | sendIn (n : NodeId)
  | sendOut (n : NodeId)
  deriving DecidableEq, Repr

/-- What can be seen from outside a task. -/
inductive Observation where
  /-- `Container::Run` is called. -/
  | run (t : TaskId) (c : Container)
  /-- `Container::UpdateWork`. -/
  | updateWork (t : TaskId) (c : Container) (increment : Int)
  /-- `co_await` of a future returns, and `FUTURE_COMPLETE` is set or not. -/
  | returned (t future : TaskId) (complete : Bool)
  deriving DecidableEq, Repr

structure State where
  /-- Tasks from here on do not exist yet. -/
  next : TaskId
  task : TaskId → Task
  queue : Queue → List TaskId
  /-- `send_map_`: the replicas that have not answered. -/
  sendMap : TaskId → Option Nat
  /-- What `PoolManager::GetContainer` finds. -/
  container : NodeId → Address → Option Container
  plugged : Container → Bool
  work : Container → Int
  trace : List Observation

/-- What does not change: where the workers are, the static containers, and the lanes that
`ClientMapTask` picks. -/
structure Layout where
  node : WorkerId → NodeId
  staticContainer : NodeId → Address → Option Container
  clientMapTask : TaskId → WorkerId

/-- A task as `Send` creates it. -/
def Task.new (header : Header) (body : Body) (parent origin : Option TaskId) : Task where
  header := header
  body := body
  parent := parent
  origin := origin
  hasContext := false
  routed := false
  started := false
  complete := false
  ctx := ⟨none, none, none, false, 0, 0⟩

def State.init (container : NodeId → Address → Option Container) : State where
  next := 0
  task := fun _ => Task.new ⟨0, none, false⟩ .coReturn none none
  queue := fun _ => []
  sendMap := fun _ => none
  container := container
  plugged := fun _ => false
  work := fun _ => 0
  trace := []

namespace State

def setTask (s : State) (t : TaskId) (f : Task → Task) : State :=
  { s with task := Function.update s.task t (f (s.task t)) }

def setCtx (s : State) (t : TaskId) (f : RunContext → RunContext) : State :=
  s.setTask t fun task => { task with ctx := f task.ctx }

def push (s : State) (q : Queue) (t : TaskId) : State :=
  { s with queue := Function.update s.queue q (s.queue q ++ [t]) }

/-- Take the first entry off a queue. -/
def pop (s : State) (q : Queue) : State :=
  { s with queue := Function.update s.queue q (s.queue q).tail }

def observe (s : State) (o : Observation) : State := { s with trace := s.trace ++ [o] }

def isComplete (s : State) (future : Option TaskId) : Bool :=
  future.any fun f => (s.task f).complete

/-- `Future::await_ready`. -/
def awaitReady (s : State) (future : Option TaskId) : Bool :=
  s.isComplete future || future.any fun f => (s.task f).header.fireAndForget

/-- `Future::await_resume`. -/
def awaitResume (s : State) (t : TaskId) (future : Option TaskId) : State :=
  match future with
  | none => s
  | some f => s.observe (.returned t f (s.task f).complete)

end State

end Runtime
end IowarpCore
