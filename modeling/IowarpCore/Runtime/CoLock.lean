/-
The cooperative locks.

Follows `comutex.h`, `corwlock.h`, `LockOwnerId` of `types.h` and `GetCurrentLockOwnerId`
of `types.cc`, with `hermes_shm/thread/lock/mutex.h` below the mutex.  A call of a lock
runs without interruption up to the call of the lock below it, and a call that has to wait
there has not happened yet: it is one step, which is not there (`none`) while it waits.
Below the reader-writer lock is what that lock is for, `RwLock.Grant`.

A task keeps the worker it was started on: it is resumed from the event queue and the
blocked queues of that worker.
-/
import IowarpCore.Shm.RwLock

namespace IowarpCore
namespace CoLock

/-- `LockOwnerId`. -/
structure LockOwnerId where
  workerId : UInt32
  pid : UInt32
  tid : UInt32
  major : UInt32
  nodeId : UInt64
deriving DecidableEq, Repr

namespace LockOwnerId

/-- `LockOwnerId()`, and what `Clear` leaves. -/
def null : LockOwnerId :=
  ⟨0, 0, 0, 0, 0⟩

/-- `IsNull`. -/
def isNull (a : LockOwnerId) : Bool :=
  a.workerId == 0 && a.pid == 0 && a.tid == 0 && a.major == 0 && a.nodeId == 0

/-- `operator==`.  A null id equals nothing, itself included. -/
def eq (a b : LockOwnerId) : Bool :=
  if a.isNull || b.isNull then false
  else a.workerId == b.workerId && a.pid == b.pid && a.tid == b.tid && a.major == b.major &&
    a.nodeId == b.nodeId

end LockOwnerId

/-! ### The mutex -/

/-- `hshm::Mutex`. -/
structure Mutex where
  lock_ : UInt64
  head_ : UInt64
  tryLock_ : UInt32
deriving DecidableEq, Repr

namespace Mutex

def init : Mutex :=
  ⟨0, 0, 0⟩

/-- `Lock`: draws a ticket and returns when it is the one at the head. -/
def lock (m : Mutex) : Option Mutex :=
  if m.lock_ = m.head_ then some { m with lock_ := m.lock_ + 1 } else none

/-- `TryLock`.  Where it succeeds `try_lock_` keeps the increment. -/
def tryLock (m : Mutex) : Option (Mutex × Bool) :=
  if m.tryLock_ > 0 ∨ m.lock_ > m.head_ then some (m, false)
  else ({ m with tryLock_ := m.tryLock_ + 1 } : Mutex).lock.map fun m => (m, true)

def unlock (m : Mutex) : Mutex :=
  { m with head_ := m.head_ + 1 }

/-- A ticket was drawn that was not given back. -/
def Held (m : Mutex) : Prop :=
  m.lock_ ≠ m.head_

end Mutex

structure CoMutex where
  lock_ : Mutex
  holder : LockOwnerId
  depth : UInt32
deriving DecidableEq, Repr

namespace CoMutex

def init : CoMutex :=
  ⟨.init, .null, 0⟩

/-- `Lock`, called with the current id `cur`. -/
def lock (cur : LockOwnerId) (c : CoMutex) : Option CoMutex :=
  if cur.eq c.holder then some { c with depth := c.depth + 1 }
  else c.lock_.lock.map fun m => ⟨m, cur, 1⟩

/-- `TryLock`. -/
def tryLock (cur : LockOwnerId) (c : CoMutex) : Option (CoMutex × Bool) :=
  if cur.eq c.holder then some ({ c with depth := c.depth + 1 }, true)
  else c.lock_.tryLock.map fun r => if r.2 then (⟨r.1, cur, 1⟩, true) else ({ c with lock_ := r.1 }, false)

/-- `Unlock`. -/
def unlock (c : CoMutex) : CoMutex :=
  let depth := c.depth - 1
  if depth = 0 then ⟨c.lock_.unlock, .null, depth⟩ else { c with depth := depth }

end CoMutex

/-! ### The reader-writer lock -/

structure CoRwLock where
  lock_ : RwLock.Grant
  holder : LockOwnerId
  writeDepth : UInt32
  readDepth : UInt32
deriving DecidableEq, Repr

namespace CoRwLock

def init : CoRwLock :=
  ⟨.free, .null, 0, 0⟩

/-- `ReadLock`. -/
def readLock (cur : LockOwnerId) (c : CoRwLock) : Option CoRwLock :=
  if cur.eq c.holder then some { c with readDepth := c.readDepth + 1 }
  else c.lock_.readLock.map fun g => { c with lock_ := g }

/-- `ReadUnlock`. -/
def readUnlock (cur : LockOwnerId) (c : CoRwLock) : CoRwLock :=
  if cur.eq c.holder ∧ c.readDepth > 0 then { c with readDepth := c.readDepth - 1 }
  else { c with lock_ := c.lock_.readUnlock }

/-- `WriteLock`. -/
def writeLock (cur : LockOwnerId) (c : CoRwLock) : Option CoRwLock :=
  if cur.eq c.holder then some { c with writeDepth := c.writeDepth + 1 }
  else c.lock_.writeLock.map fun g => { c with lock_ := g, holder := cur, writeDepth := 1 }

/-- `WriteUnlock`. -/
def writeUnlock (c : CoRwLock) : CoRwLock :=
  let depth := c.writeDepth - 1
  if depth = 0 ∧ c.readDepth = 0 then
    { c with lock_ := c.lock_.writeUnlock, holder := .null, writeDepth := depth }
  else { c with writeDepth := depth }

end CoRwLock

/-! ### Tasks -/

/-- The fields of `TaskId` that a lock looks at. -/
structure TaskId where
  pid : UInt32
  tid : UInt32
  major : UInt32
  nodeId : UInt64
deriving DecidableEq, Repr

/-- The tasks of a node, by number.  A task that is created while another runs is its
subtask and has its `TaskId` but for `unique_` (`CreateTaskId`). -/
structure Tasks where
  parent : Nat → Option Nat
  taskId : Nat → TaskId
  worker : Nat → UInt32
  older : ∀ t p, parent t = some p → p < t
  inherits : ∀ t p, parent t = some p → taskId t = taskId p

namespace Tasks

/-- `GetCurrentLockOwnerId` while the task runs. -/
def lockOwnerId (T : Tasks) (t : Nat) : LockOwnerId :=
  ⟨T.worker t, (T.taskId t).pid, (T.taskId t).tid, (T.taskId t).major, (T.taskId t).nodeId⟩

/-- The first is a parent of a parent of ... the second. -/
inductive Ancestor (T : Tasks) : Nat → Nat → Prop
  | parent {p t : Nat} : T.parent t = some p → Ancestor T p t
  | above {a p t : Nat} : Ancestor T a p → T.parent t = some p → Ancestor T a t

/-- One of the two is the other or an ancestor of it. -/
def Related (T : Tasks) (t u : Nat) : Prop :=
  t = u ∨ T.Ancestor t u ∨ T.Ancestor u t

end Tasks

/-! ### Calls

A lock together with the holds that its callers have: what a call returned and the
matching unlock has not given back. -/

variable {τ : Type} [DecidableEq τ]

inductive MutexCall where
  | lock
  | tryLock
  | unlock
deriving DecidableEq, Repr

structure MutexUse (τ : Type) where
  mutex : CoMutex
  holds : List τ
deriving DecidableEq, Repr

def MutexUse.init : MutexUse τ :=
  ⟨.init, []⟩

/-- A call by `t`, whose id is `idOf t`.  Who unlocks has locked. -/
def MutexUse.call (idOf : τ → LockOwnerId) (c : τ × MutexCall) (s : MutexUse τ) :
    Option (MutexUse τ) :=
  match c with
  | (t, .lock) => (s.mutex.lock (idOf t)).map fun m => ⟨m, t :: s.holds⟩
  | (t, .tryLock) =>
    (s.mutex.tryLock (idOf t)).map fun r => ⟨r.1, if r.2 then t :: s.holds else s.holds⟩
  | (t, .unlock) => if t ∈ s.holds then some ⟨s.mutex.unlock, s.holds.erase t⟩ else none

inductive Kind where
  | read
  | write
deriving DecidableEq, Repr

inductive RwCall where
  | lock (k : Kind)
  | unlock (k : Kind)
deriving DecidableEq, Repr

structure RwUse (τ : Type) where
  rwlock : CoRwLock
  holds : List (τ × Kind)
deriving DecidableEq, Repr

def RwUse.init : RwUse τ :=
  ⟨.init, []⟩

/-- A call by `t`, whose id is `idOf t`.  Who unlocks has locked. -/
def RwUse.call (idOf : τ → LockOwnerId) (c : τ × RwCall) (s : RwUse τ) : Option (RwUse τ) :=
  match c with
  | (t, .lock .read) => (s.rwlock.readLock (idOf t)).map fun l => ⟨l, (t, .read) :: s.holds⟩
  | (t, .lock .write) => (s.rwlock.writeLock (idOf t)).map fun l => ⟨l, (t, .write) :: s.holds⟩
  | (t, .unlock .read) =>
    if (t, .read) ∈ s.holds then
      some ⟨s.rwlock.readUnlock (idOf t), s.holds.erase (t, .read)⟩
    else none
  | (t, .unlock .write) =>
    if (t, .write) ∈ s.holds then some ⟨s.rwlock.writeUnlock, s.holds.erase (t, .write)⟩
    else none

end CoLock
end IowarpCore
