/-
Queues of a bounded length, and what a push does when there is no room.

A queue is the list of its elements, oldest first.  A push to a full queue is refused, or
waits and never comes back while nothing else runs, or makes room by dropping the oldest.
-/
import Mathlib.Data.List.Basic

namespace IowarpCore

variable {α : Type}

/-- What a push does to a full queue. -/
inductive WhenFull where
  | refuse
  | wait
  | dropOldest
deriving DecidableEq, Repr

structure BoundedQueue where
  capacity : Nat
  whenFull : WhenFull
deriving DecidableEq, Repr

/-- One operation on a queue. -/
inductive QueueCall (α : Type) where
  | push (val : α)
  | pop
deriving DecidableEq, Repr

/-- What can be seen after an operation: whether a push was accepted or what was popped, and
then the length and whether there is nothing. -/
structure QueueSight (α : Type) where
  accepted : Bool
  popped : Option α
  length : Nat
  empty : Bool
deriving DecidableEq, Repr

namespace BoundedQueue

/-- A push, `none` if it waits. -/
def push (p : BoundedQueue) (q : List α) (val : α) : Option (Bool × List α) :=
  if q.length < p.capacity then some (true, q ++ [val])
  else
    match p.whenFull with
    | .refuse => some (false, q)
    | .wait => none
    | .dropOldest => some (true, (q ++ [val]).drop (q.length + 1 - p.capacity))

/-- What is seen of the calls, up to the first that does not come back. -/
def observe (p : BoundedQueue) : List α → List (QueueCall α) → List (QueueSight α)
  | _, [] => []
  | q, .push val :: calls =>
    match p.push q val with
    | none => []
    | some (accepted, q') =>
      ⟨accepted, none, q'.length, q'.isEmpty⟩ :: observe p q' calls
  | q, .pop :: calls =>
    ⟨q.head?.isSome, q.head?, q.tail.length, q.tail.isEmpty⟩ :: observe p q.tail calls

theorem push_of_room {p : BoundedQueue} {q : List α} (val : α) (h : q.length < p.capacity) :
    p.push q val = some (true, q ++ [val]) :=
  if_pos h

end BoundedQueue

end IowarpCore
