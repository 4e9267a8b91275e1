/-
The worker loop: how a task is routed, started, suspended, resumed and ended.

Each definition is one function of the worker or of the IPC manager; an iteration of the
loop over a queue takes one entry.  What the code gets from elsewhere comes with the action:
how a pool query resolves and which worker `RuntimeMapTask` picks, whether the time of a
periodic entry has come, and what becomes of the replicas on the network.
-/
import IowarpCore.Runtime.State

namespace IowarpCore
namespace Runtime

open State

/-- Where `ResolvePoolQuery` and `IsTaskLocal` send a task. -/
inductive Route where
  /-- No pool query resolves. -/
  | unresolved
  /-- To this node, and there to a worker. -/
  | here (dest : WorkerId)
  | elsewhere
  deriving DecidableEq, Repr

section

variable (L : Layout)

/-! ### Submitting -/

/-- `IpcManager::BeginTask`, on a worker. -/
def beginTask (w : WorkerId) (c : Option Container) (t : TaskId) (s : State) : State :=
  s.setTask t fun task => { task with
    hasContext := true
    ctx := ⟨c, some w, none, false, task.header.period.getD 0, 0⟩ }

/-- `IpcManager::SendRuntimeClient`, from the coroutine of `parent` on worker `w`. -/
def sendRuntimeClient (w : WorkerId) (parent : TaskId) (header : Header) (body : Body)
    (s : State) : State :=
  let t := s.next
  let s := { s with next := t + 1 }
  let s := s.setTask t fun _ => Task.new header body (some parent) none
  let s := beginTask w none t s
  s.push (.lane (L.clientMapTask t)) t

/-! ### Coroutines -/

/-- `await_suspend` of a future and of a yield. -/
def suspend (t : TaskId) (frame : Frame) (us : ℚ) (s : State) : State :=
  s.setCtx t fun ctx => { ctx with coroHandle := some frame, isYielded := true, yieldTime := us }

/-- Run a coroutine until it suspends or returns. -/
def runBody (w : WorkerId) (t : TaskId) : Body → List (Option TaskId) → State → State
  | .coReturn, _, s => s.setCtx t fun ctx => { ctx with coroHandle := none }
  | .submit header body rest, slots, s =>
    runBody w t rest (slots ++ [some s.next]) (sendRuntimeClient L w t header body s)
  | .coAwait i rest, slots, s =>
    if s.awaitReady (slot slots i) then
      runBody w t rest (slots.set i none) (s.awaitResume t (slot slots i))
    else suspend t ⟨slots, .coAwait i rest⟩ 0 s
  | .poll i complete pending, slots, s =>
    if s.isComplete (slot slots i) then runBody w t complete slots s
    else runBody w t pending slots s
  | .yield us rest, slots, s => suspend t ⟨slots, .yield us rest⟩ us s

/-- `Container::UpdateWork`. -/
def updateWork (t : TaskId) (c : Container) (increment : Int) (s : State) : State :=
  ({ s with work := Function.update s.work c (s.work c + increment) } : State).observe
    (.updateWork t c increment)

/-- `Worker::StartCoroutine`. -/
def startCoroutine (w : WorkerId) (t : TaskId) (s : State) : State :=
  match (s.task t).ctx.container with
  | none => s
  | some c =>
    let s := if (s.task t).header.period = none then updateWork t c 1 s else s
    runBody L w t (s.task t).body [] (s.observe (.run t c))

/-- `Worker::ResumeCoroutine`. -/
def resumeCoroutine (w : WorkerId) (t : TaskId) (s : State) : State :=
  let s := s.setCtx t fun ctx => { ctx with isYielded := false }
  match (s.task t).ctx.coroHandle with
  | none => s
  | some ⟨slots, .coAwait i rest⟩ =>
    runBody L w t rest (slots.set i none) (s.awaitResume t (slot slots i))
  | some ⟨slots, .yield _ rest⟩ => runBody L w t rest slots s
  | some ⟨slots, body⟩ => runBody L w t body slots s

/-! ### Waiting and ending -/

/-- The blocked queue for a number of blocks. -/
def blockedIndex (yieldCount : Nat) : Fin 4 :=
  if yieldCount ≤ 2 then 0 else if yieldCount ≤ 4 then 1 else if yieldCount ≤ 8 then 2 else 3

/-- The periodic queue for a time. -/
def periodicIndex (yieldTime : ℚ) : Fin 4 :=
  if yieldTime ≤ 50 then 0 else if yieldTime ≤ 200 then 1 else if yieldTime ≤ 50000 then 2 else 3

/-- `Worker::AddToBlockedQueue`. -/
def addToBlockedQueue (w : WorkerId) (t : TaskId) (s : State) : State :=
  if (s.task t).ctx.yieldTime = 0 then
    let s := s.setCtx t fun ctx => { ctx with yieldCount := ctx.yieldCount + 1 }
    s.push (.blocked w (blockedIndex (s.task t).ctx.yieldCount)) t
  else s.push (.periodic w (periodicIndex (s.task t).ctx.yieldTime)) t

/-- `Worker::ReschedulePeriodicTask`; `AdjustPolling` restores the period. -/
def reschedulePeriodicTask (w : WorkerId) (t : TaskId) (period : ℚ) (s : State) : State :=
  addToBlockedQueue w t (s.setTask t fun task => { task with
    started := false
    ctx := { task.ctx with yieldTime := period } })

/-- The reply paths of `Worker::EndTask`. -/
def replyTask (w : WorkerId) (t : TaskId) (s : State) : State :=
  if (s.task t).header.fireAndForget then s
  else if (s.task t).origin.isSome then s.push (.sendOut (L.node w)) t
  else
    match (s.task t).parent.bind fun p => (s.task p).ctx.worker with
    | some v => s.push (.events v) t
    | none => s.setTask t fun task => { task with complete := true }

/-- `Worker::EndTask`. -/
def endTask (w : WorkerId) (t : TaskId) (s : State) : State :=
  match (s.task t).ctx.container with
  | none => s
  | some c =>
    match (s.task t).header.period with
    | some period => reschedulePeriodicTask w t period s
    | none => replyTask L w t (updateWork t c (-1) s)

/-- The container that `GetContainer` finds, unless it is plugged. -/
def available (w : WorkerId) (t : TaskId) (s : State) : Option Container :=
  (s.container (L.node w) (s.task t).header.address).filter fun c => !s.plugged c

/-- `ExecTask` resolves the container afresh each time. -/
def resolveContainer (w : WorkerId) (t : TaskId) (s : State) : State :=
  match available L w t s with
  | some c => s.setCtx t fun ctx => { ctx with container := some c }
  | none => s

/-- The coroutine part of `ExecTask`. -/
def runCoroutine (w : WorkerId) (t : TaskId) (isStarted : Bool) (s : State) : State :=
  if isStarted then resumeCoroutine L w t s
  else (startCoroutine L w t s).setTask t fun task => { task with started := true }

/-- What `ExecTask` does once the coroutine gave back control. -/
def settleTask (w : WorkerId) (t : TaskId) (s : State) : State :=
  if (s.task t).ctx.isYielded then
    if (s.task t).ctx.yieldTime > 0 then addToBlockedQueue w t s else s
  else endTask L w t s

/-- `Worker::ExecTask`. -/
def execTask (w : WorkerId) (t : TaskId) (isStarted : Bool) (s : State) : State :=
  settleTask L w t (runCoroutine L w t isStarted (resolveContainer L w t s))

/-! ### Routing -/

/-- `IpcManager::RouteLocal`: whether this worker is to execute the task. -/
def routeLocal (w : WorkerId) (t : TaskId) (dest : WorkerId) (s : State) : Bool × State :=
  let s := s.setTask t fun task => { task with routed := true }
  match available L w t s with
  | none => (false, s.push (.retry w) t)
  | some c =>
    let s := s.setCtx t fun ctx => { ctx with container := some c }
    if dest = w then (true, s) else (false, s.push (.lane dest) t)

/-- `IpcManager::RouteGlobal`. -/
def routeGlobal (w : WorkerId) (t : TaskId) (s : State) : State :=
  (s.push (.sendIn (L.node w)) t).setTask t fun task => { task with routed := true }

/-- `IpcManager::RouteTask`. -/
def routeTask (w : WorkerId) (t : TaskId) (route : Route) (s : State) : Bool × State :=
  if (s.task t).routed then (true, s)
  else
    match route with
    | .unresolved => (false, s)
    | .here dest => routeLocal L w t dest s
    | .elsewhere => (false, routeGlobal L w t s)

/-- Route a task and execute it if that is for this worker. -/
def routeAndExec (w : WorkerId) (t : TaskId) (route : Route) (isStarted : Bool) (s : State) :
    State :=
  match routeTask L w t route s with
  | (true, s) => execTask L w t isStarted s
  | (false, s) => s

/-! ### The queues -/

/-- `Worker::ProcessNewTask`. -/
def processNewTask (w : WorkerId) (route : Route) (s : State) : State :=
  match s.queue (.lane w) with
  | [] => s
  | t :: _ =>
    let s := s.pop (.lane w)
    match L.staticContainer (L.node w) (s.task t).header.address with
    | none => s.setTask t fun task => { task with complete := true }
    | some c =>
      let s := if (s.task t).hasContext then
          s.setCtx t fun ctx => { ctx with worker := some w }
        else beginTask w (some c) t s
      routeAndExec L w t route (s.task t).started s

/-- One entry of `Worker::ProcessEventQueue`. -/
def processEvent (w : WorkerId) (s : State) : State :=
  match s.queue (.events w) with
  | [] => s
  | f :: _ =>
    let s := (s.pop (.events w)).setTask f fun task => { task with complete := true }
    match (s.task f).parent with
    | none => s
    | some p =>
      if (s.task p).ctx.coroHandle.isNone then s
      else execTask L w p true (s.setCtx p fun ctx => { ctx with isYielded := false })

/-- One entry of `Worker::ProcessPeriodicQueue`; `due` says whether its time has come. -/
def processPeriodic (w : WorkerId) (i : Fin 4) (due : Bool) (route : Route) (s : State) : State :=
  match s.queue (.periodic w i) with
  | [] => s
  | t :: _ =>
    let s := s.pop (.periodic w i)
    if due then
      let isStarted := (s.task t).started
      let s := s.setTask t fun task => { task with
        routed := false
        ctx := { task.ctx with isYielded := false } }
      routeAndExec L w t route isStarted s
    else s.push (.periodic w i) t

/-- One entry of `Worker::ProcessBlockedQueue`. -/
def processBlocked (w : WorkerId) (i : Fin 4) (s : State) : State :=
  match s.queue (.blocked w i) with
  | [] => s
  | t :: _ =>
    let s := s.pop (.blocked w i)
    let isStarted := (s.task t).started
    if isStarted && (s.task t).ctx.coroHandle.isNone then s
    else
      execTask L w t isStarted
        (s.setCtx t fun ctx => { ctx with yieldCount := 0, isYielded := false })

/-- One entry of `Worker::ProcessRetryQueue`. -/
def processRetry (w : WorkerId) (route : Route) (s : State) : State :=
  match s.queue (.retry w) with
  | [] => s
  | t :: _ =>
    let s := s.pop (.retry w)
    match route with
    | .here _ =>
      match available L w t s with
      | none => s.push (.retry w) t
      | some c =>
        execTask L w t false (s.setCtx t fun ctx => { ctx with container := some c })
    | _ => routeGlobal L w t s

/-! ### The network -/

/-- `RecvIn`: a replica of `t` is enqueued on the lane of a worker of its node. -/
def recvIn (t : TaskId) (s : State) (w : WorkerId) : State :=
  let copy := s.next
  let s := { s with next := copy + 1 }
  let s := s.setTask copy fun _ =>
    Task.new { (s.task t).header with period := none } (s.task t).body none (some t)
  s.push (.lane w) copy

/-- `SendIn`, for so many pool queries, and the replicas that arrive. -/
def sendIn (n : NodeId) (replicas : Nat) (arrived : List WorkerId) (s : State) : State :=
  match s.queue (.sendIn n) with
  | [] => s
  | t :: _ =>
    let s := s.pop (.sendIn n)
    let s := { s with sendMap := Function.update s.sendMap t (some replicas) }
    arrived.foldl (recvIn t) s

/-- `SendOut` of a replica and `RecvOut` of its answer, by the network worker `w` of the
origin's node. -/
def recvOut (n : NodeId) (w : WorkerId) (s : State) : State :=
  match s.queue (.sendOut n) with
  | [] => s
  | copy :: _ =>
    let s := s.pop (.sendOut n)
    match (s.task copy).origin with
    | none => s
    | some t =>
      match s.sendMap t with
      | none => s
      | some 0 => s
      | some 1 =>
        let s := { s with sendMap := Function.update s.sendMap t none }
        let s := match L.staticContainer (L.node w) (s.task t).header.address with
          | some c => s.setCtx t fun ctx => { ctx with container := some c }
          | none => s
        endTask L w t s
      | some (replicas + 2) =>
        { s with sendMap := Function.update s.sendMap t (some (replicas + 1)) }

/-! ### Runs -/

inductive Act where
  /-- A thread that is no worker enqueues a task. -/
  | accept (w : WorkerId) (header : Header) (body : Body)
  | newTask (w : WorkerId) (route : Route)
  | event (w : WorkerId)
  | periodic (w : WorkerId) (i : Fin 4) (due : Bool) (route : Route)
  | blocked (w : WorkerId) (i : Fin 4)
  | retry (w : WorkerId) (route : Route)
  | sendIn (n : NodeId) (replicas : Nat) (arrived : List WorkerId)
  | recvOut (n : NodeId) (w : WorkerId)
  /-- A container is plugged or unplugged. -/
  | plug (c : Container) (plugged : Bool)
  /-- A container is created, moved or removed. -/
  | move (n : NodeId) (address : Address) (c : Option Container)
  deriving DecidableEq, Repr

/-- A task without a parent, on the lane of a worker. -/
def acceptTask (w : WorkerId) (header : Header) (body : Body) (s : State) : State :=
  let t := s.next
  let s := { s with next := t + 1 }
  (s.setTask t fun _ => Task.new header body none none).push (.lane w) t

def step : Act → State → State
  | .accept w header body, s => acceptTask w header body s
  | .newTask w route, s => processNewTask L w route s
  | .event w, s => processEvent L w s
  | .periodic w i due route, s => processPeriodic L w i due route s
  | .blocked w i, s => processBlocked L w i s
  | .retry w route, s => processRetry L w route s
  | .sendIn n replicas arrived, s => sendIn n replicas arrived s
  | .recvOut n w, s => recvOut L n w s
  | .plug c plugged, s => { s with plugged := Function.update s.plugged c plugged }
  | .move n address c, s =>
    { s with container := fun n' a' => if n' = n ∧ a' = address then c else s.container n' a' }

end

end Runtime
end IowarpCore
