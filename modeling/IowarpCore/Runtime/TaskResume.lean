/-
Nested coroutines of one task: `TaskResume` of `task.h` and the part of `worker.cc` that starts
and resumes a task.

A frame is a coroutine with its promise.  Whoever calls `resume()` on a frame waits on the
native stack until a coroutine suspends or is finished: the worker, or an `await_suspend` that
starts an inner coroutine.  `final_suspend` hands over to the caller its promise knows without
going back there.  What a coroutine does between two awaits is not looked at, so the coroutine
that runs may at any point call another one, await a future or yield, or return.

A step is not defined where the source would use a frame that is destroyed, running or
finished in a way that is not allowed.  `trace` is not in the source; it remembers what
happened to the frames.
-/
import IowarpCore.Lib.CallStack

namespace IowarpCore
namespace Nested

open CallStack (Occurrence)

/-- A `std::coroutine_handle`: the number of the frame. -/
abbrev Handle := Nat

structure Promise where
  /-- `run_ctx_` is set. -/
  runCtx : Bool
  callerHandle : Option Handle
deriving DecidableEq, Repr

/-- The object that is awaited for an inner coroutine. -/
structure TaskResume where
  handle : Option Handle
  callerHandle : Option Handle
deriving DecidableEq, Repr

/-- Where a frame stands. -/
inductive Point where
  /-- `initial_suspend`. -/
  | initial
  | body
  /-- At a `Future` or a `YieldAwaiter`. -/
  | yielded
  | awaiting (inner : TaskResume)
  /-- `final_suspend`. -/
  | final
deriving DecidableEq, Repr

structure Frame where
  promise : Promise
  point : Point
deriving DecidableEq, Repr

/-- A call of `resume()` that has not come back. -/
inductive Native where
  | startCoroutine (handle : Handle)
  | resumeCoroutine
  /-- `TaskResume::await_suspend` in this caller. -/
  | awaitSuspend (caller : Handle)
deriving DecidableEq, Repr

/-- The frames of a task, its `RunContext`, and who runs. -/
structure Machine where
  frames : Handle → Option Frame
  next : Handle
  /-- `coro_handle_`. -/
  coroHandle : Option Handle
  isYielded : Bool
  /-- The calls of `resume()`, the innermost one first. -/
  native : List Native
  running : Option Handle
  /-- `ExecTask` has come to `EndTask`. -/
  ended : Bool
  trace : List Occurrence

namespace Machine

variable (m : Machine)

def setFrame (h : Handle) (f : Option Frame) : Machine :=
  { m with frames := Function.update m.frames h f }

/-- `done()`. -/
def done (h : Handle) : Option Bool :=
  (m.frames h).map fun f => decide (f.point = .final)

/-- `destroy()`. -/
def destroy (h : Handle) : Option Machine :=
  match m.frames h with
  | none => none
  | some f =>
    if f.point = .body then none
    else some { m.setFrame h none with trace := m.trace ++ [Occurrence.destroyed h] }

/-- The frame goes on in its body. -/
def runs (h : Handle) (f : Frame) : Machine :=
  { m.setFrame h (some { f with point := .body }) with running := some h }

/-- `TaskResume::await_resume`. -/
def awaitResume (inner : TaskResume) : Option Machine :=
  match inner.handle with
  | none => some m
  | some h =>
    match m.frames h with
    | none => none
    | some f =>
      (m.destroy h).map fun m =>
        if f.promise.runCtx ∧ inner.callerHandle.isSome then
          { m with coroHandle := inner.callerHandle }
        else m

/-- `resume()`: the frame gets control. -/
def enter (h : Handle) : Option Machine :=
  match m.frames h with
  | none => none
  | some f =>
    match f.point with
    | .initial | .yielded => some (m.runs h f)
    | .awaiting inner => (m.awaitResume inner).map fun m => m.runs h f
    | .body | .final => none

/-- The end of `ExecTask`. -/
def endExec : Option Machine :=
  match m.coroHandle with
  | none => some { m with ended := !m.isYielded }
  | some h => (m.done h).map fun coroDone => { m with ended := !(m.isYielded && !coroDone) }

/-- The worker behind its `resume()`: a coroutine that is done is cleaned up. -/
def cleanUp (h : Handle) : Option Machine :=
  match m.done h with
  | none => none
  | some false => m.endExec
  | some true => (m.destroy h).bind fun m => { m with coroHandle := none }.endExec

/-- Control comes back to the calls of `resume()`.  An `await_suspend` goes on with its caller if
the inner coroutine is done, else it lets the caller suspend. -/
def unwind : List Native → Machine → Option Machine
  | [], _ => none
  | .startCoroutine h :: native, m => { m with native := native }.cleanUp h
  | .resumeCoroutine :: native, m =>
    match m.coroHandle with
    | none => none
    | some h => { m with native := native }.cleanUp h
  | .awaitSuspend caller :: native, m =>
    match m.frames caller with
    | some f =>
      match f.point with
      | .awaiting ⟨some h, callerHandle⟩ =>
        match m.done h with
        | none => none
        | some true =>
          (m.destroy h).bind fun m => (m.awaitResume ⟨none, callerHandle⟩).map fun m =>
            { m.runs caller f with
              native := native
              trace := m.trace ++ [Occurrence.resumed h caller] }
        | some false =>
          match m.frames h with
          | none => none
          | some inner =>
            unwind native (m.setFrame h (some
              { inner with promise := { inner.promise with callerHandle := some caller } }))
      | _ => none
    | none => none

/-- What happens next. -/
inductive Move where
  /-- `co_await` of a new coroutine. -/
  | call
  /-- `co_await` of a future that is not complete. -/
  | awaitFuture
  /-- `co_await chi::yield()`. -/
  | yield
  /-- `co_return`. -/
  | ret
  /-- The worker goes on with the task. -/
  | resume
deriving DecidableEq, Repr

/-- The coroutine suspends at a future or a yield. -/
def suspend (h : Handle) (f : Frame) : Option Machine :=
  unwind m.native
    { m.setFrame h (some { f with point := .yielded }) with
      coroHandle := some h
      isYielded := true
      running := none }

/-- `TaskResume::await_suspend` up to its `resume()`. -/
def call (h : Handle) (f : Frame) : Option Machine :=
  let inner : Frame := ⟨⟨f.promise.runCtx, none⟩, .initial⟩
  let m' := (m.setFrame m.next (some inner)).setFrame h
    (some { f with point := .awaiting ⟨some m.next, some h⟩ })
  { m' with next := m.next + 1, native := .awaitSuspend h :: m.native }.enter m.next

/-- `final_suspend`. -/
def finalSuspend (h : Handle) (f : Frame) : Option Machine :=
  let m' : Machine :=
    { m.setFrame h (some { f with point := .final }) with
      running := none
      trace := m.trace ++ [Occurrence.finished h] }
  match f.promise.callerHandle with
  | some caller => { m' with trace := m'.trace ++ [Occurrence.resumed h caller] }.enter caller
  | none => unwind m.native m'

/-- `ResumeCoroutine` and the end of `ExecTask`. -/
def resumeCoroutine : Option Machine :=
  let m' := { m with isYielded := false }
  match m.coroHandle with
  | none => m'.endExec
  | some h => { m' with native := [.resumeCoroutine] }.enter h

/-- One move of the coroutine that runs, or of the worker while none does. -/
def step (move : Move) : Option Machine :=
  match move with
  | .resume => if m.running = none ∧ m.ended = false then m.resumeCoroutine else none
  | .call | .awaitFuture | .yield | .ret =>
    match m.running with
    | none => none
    | some h =>
      match m.frames h with
      | none => none
      | some f =>
        match move with
        | .call => m.call h f
        | .awaitFuture => m.suspend h f
        | .yield => if f.promise.runCtx then m.suspend h f else some m
        | .ret => m.finalSuspend h f
        | .resume => none

/-- `StartCoroutine`: `Run` has made the first frame. -/
def start : Option Machine :=
  Machine.enter
    { frames := Function.update (fun _ => none) 0 (some ⟨⟨true, none⟩, .initial⟩)
      next := 1
      coroHandle := some 0
      isYielded := false
      native := [.startCoroutine 0]
      running := none
      ended := false
      trace := [] } 0

/-- `StartCoroutine` and what happens then. -/
def runTask (moves : List Move) : Option Machine :=
  start.bind fun m => moves.foldlM (fun m move => Machine.step m move) m

end Machine
end Nested
end IowarpCore
