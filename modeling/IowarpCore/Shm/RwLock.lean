/-
The reader-writer lock.

Follows `hermes_shm/thread/lock/rwlock.h`.  Every atomic load, fetch_add, fetch_sub and
compare_exchange is a step of its own; a thread's place says which one it does next and
holds the locals that are live there.  `if`s on locals belong to the step before them.
`compare_exchange_weak` may fail although the values agree: a thread is told with each
step whether it does (`Move.spurious`).  The counts and `cur_writer_` are 32 bit wide,
`ticket_` is 64 bit wide, and all of them wrap.

`owner` is not used by the source and left out, and so is `Yield`.
-/
import IowarpCore.Lib.Threads

namespace IowarpCore
namespace RwLock

/-- `RwLockMode::Type`. -/
inductive Mode where
  | none
  | write
  | read
deriving DecidableEq, Repr

/-- The atomics of `RwLock`. -/
structure Shared where
  mode : Mode
  readers : UInt32
  writers : UInt32
  curWriter : UInt32
  ticket : UInt64
deriving DecidableEq, Repr

/-- `RwLock()`. -/
def init : Shared :=
  ⟨.none, 0, 0, 0, 0⟩

/-- Who calls `UpdateMode`: `ReadLock`, or `WriteLock` with its ticket. -/
inductive Caller where
  | reader
  | writer (tkt : UInt64)
deriving DecidableEq, Repr

/-- The next atomic operation of a thread, with the locals it has at that point. -/
inductive Place where
  | idle
  /- `ReadLock` and `WriteLock` up to their loops -/
  | addReader
  | addWriter
  | takeTicket
  /- `UpdateMode` -/
  | loadMode (who : Caller)
  | loadReaders (who : Caller) (mode : Mode)
  | loadWriters (who : Caller) (mode : Mode)
  | casNone (who : Caller) (mode : Mode)
  /- the rest of the loops -/
  | casRead
  | casWrite (tkt : UInt64)
  | reloadMode (tkt : UInt64)
  | loadCurWriter (tkt : UInt64)
  /- after the call has returned -/
  | reading
  | writing (tkt : UInt64)
  /- `WriteUnlock` after its first statement -/
  | addCurWriter (tkt : UInt64)
deriving DecidableEq, Repr

/-- What a thread is told to do: call `ReadLock` or `WriteLock` (from `idle`), call the
unlock that matches its hold, or take the next atomic operation. -/
inductive Move where
  | readLock
  | writeLock
  | unlock
  | go (spurious : Bool)
deriving DecidableEq, Repr

/-- Where a caller of `UpdateMode` is once that has returned with `mode`. -/
def afterUpdate : Caller → Mode → Place
  | .reader, .read => .reading
  | .reader, .none => .casRead
  | .reader, .write => .loadMode .reader
  | .writer tkt, .none => .casWrite tkt
  | .writer tkt, .write => .loadCurWriter tkt
  | .writer tkt, .read => .loadMode (.writer tkt)

/-- `mode_.compare_exchange_weak(expected, desired)`: the new mode, what is in `expected`
afterwards, and whether it was exchanged. -/
def casMode (spurious : Bool) (s : Shared) (expected desired : Mode) : Shared × Mode × Bool :=
  if s.mode = expected ∧ spurious = false then
    ({ s with mode := desired }, expected, true)
  else
    (s, s.mode, false)

/-- One step of a thread. -/
def next (mv : Move) (s : Shared) (p : Place) : Option (Shared × Place) :=
  match p, mv with
  | .idle, .readLock => some (s, .addReader)
  | .idle, .writeLock => some (s, .addWriter)
  | .addReader, .go _ => some ({ s with readers := s.readers + 1 }, .loadMode .reader)
  | .addWriter, .go _ => some ({ s with writers := s.writers + 1 }, .takeTicket)
  | .takeTicket, .go _ =>
    some ({ s with ticket := s.ticket + 1 }, .loadMode (.writer s.ticket))
  | .loadMode who, .go _ => some (s, .loadReaders who s.mode)
  | .loadReaders who mode, .go _ =>
    -- `&&` and `||` stop early: `writers_` is read unless the first half holds
    if s.readers = 0 ∧ mode = .read then some (s, .casNone who mode)
    else some (s, .loadWriters who mode)
  | .loadWriters who mode, .go _ =>
    if s.writers = 0 ∧ mode = .write then some (s, .casNone who mode)
    else some (s, afterUpdate who mode)
  | .casNone who mode, .go spurious =>
    let r := casMode spurious s mode .none
    some (r.1, afterUpdate who r.2.1)
  | .casRead, .go spurious =>
    let r := casMode spurious s .none .read
    some (r.1, if r.2.2 then .reading else .loadMode .reader)
  | .casWrite tkt, .go spurious =>
    some ((casMode spurious s .none .write).1, .reloadMode tkt)
  | .reloadMode tkt, .go _ =>
    some (s, if s.mode = .write then .loadCurWriter tkt else .loadMode (.writer tkt))
  | .loadCurWriter tkt, .go _ =>
    -- the 32-bit value is widened before it is compared
    some (s, if s.curWriter.toUInt64 = tkt then .writing tkt else .loadMode (.writer tkt))
  | .reading, .unlock => some ({ s with readers := s.readers - 1 }, .idle)
  | .writing tkt, .unlock => some ({ s with writers := s.writers - 1 }, .addCurWriter tkt)
  | .addCurWriter _, .go _ => some ({ s with curWriter := s.curWriter + 1 }, .idle)
  | _, _ => none

/-- The lock and its threads. -/
abbrev System := Threads Shared Place

/-- A fresh lock and `n` threads that have not called it. -/
def start (n : Nat) : System :=
  ⟨init, List.replicate n .idle⟩

/-- The thread has returned from `ReadLock` and not unlocked. -/
def Place.HoldsRead (p : Place) : Prop :=
  p = .reading

/-- The thread has returned from `WriteLock` and not unlocked. -/
def Place.HoldsWrite (p : Place) : Prop :=
  ∃ tkt, p = .writing tkt

/-- No thread has the lock for writing while another has it. -/
def Exclusive (s : System) : Prop :=
  ∀ (i j : Nat) (p q : Place), s.locals[i]? = some p → s.locals[j]? = some q → i ≠ j →
    p.HoldsWrite → ¬ q.HoldsRead ∧ ¬ q.HoldsWrite

/-! ### What the lock is for -/

/-- Any number of readers, or one writer. -/
structure Grant where
  readers : Nat
  writer : Bool
deriving DecidableEq, Repr

namespace Grant

def free : Grant :=
  ⟨0, false⟩

/-- `none` while the caller has to wait. -/
def readLock (g : Grant) : Option Grant :=
  if g.writer then none else some { g with readers := g.readers + 1 }

def readUnlock (g : Grant) : Grant :=
  { g with readers := g.readers - 1 }

/-- `none` while the caller has to wait. -/
def writeLock (g : Grant) : Option Grant :=
  if g.writer ∨ 0 < g.readers then none else some { g with writer := true }

def writeUnlock (g : Grant) : Grant :=
  { g with writer := false }

/-- It is left alone, or one of the four operations goes through. -/
def Moves (g g' : Grant) : Prop :=
  g' = g ∨ g.readLock = some g' ∨ g.writeLock = some g' ∨ g' = g.readUnlock ∨ g' = g.writeUnlock

/-- Somebody has it. -/
def Held (g : Grant) : Prop :=
  g.writer = true ∨ 0 < g.readers

end Grant

def Place.isWriting : Place → Bool
  | .writing _ => true
  | _ => false

/-- Who has the lock, of its threads. -/
def System.grant (s : System) : Grant :=
  ⟨s.locals.countP (· == .reading), s.locals.any Place.isWriting⟩

end RwLock
end IowarpCore
