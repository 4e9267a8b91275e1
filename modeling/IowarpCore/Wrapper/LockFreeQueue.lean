/-
The queue of the reorganization batcher: one producer and one consumer.

Every atomic load and store and every access to a slot is a step of its own; a place says
which one a thread does next and holds the locals that are live there.  `usize` is 64 bit
wide and wraps.  `next_power_of_two` is that of a release build, which wraps to 0 where a
debug build stops.

Beside the queue stands what has happened, which the code does not keep: the calls that
returned, and for the calls that have not how many items were queued at each moment.
-/
import Mathlib.Logic.Function.Basic

namespace IowarpCore

namespace LockFreeQueue

variable {T : Type}

/-- `LockFreeQueue`.  A slot is named by its index. -/
structure Queue (T : Type) where
  buffer : UInt64 → Option T
  capacity : UInt64
  mask : UInt64
  head : UInt64
  tail : UInt64

def nextPowerOfTwo (n : UInt64) : UInt64 := UInt64.ofNat n.toNat.nextPowerOfTwo

/-- `LockFreeQueue::new`, with the counters at `start` in place of 0. -/
def Queue.new (capacity start : UInt64) : Queue T where
  buffer _ := none
  capacity := nextPowerOfTwo capacity
  mask := nextPowerOfTwo capacity - 1
  head := start
  tail := start

/-- The slot of a position. -/
def Queue.index (q : Queue T) (pos : UInt64) : UInt64 := pos &&& q.mask

/-- The producer in `push`. -/
inductive Producer (T : Type)
  | idle
  | loadHead (item : T)
  | loadTail (item : T) (head : UInt64)
  | writeSlot (item : T) (head : UInt64)
  | storeHead (item : T) (head : UInt64)

/-- The consumer in `pop`. -/
inductive Consumer (T : Type)
  | idle
  | loadTail
  | loadHead (tail : UInt64)
  | takeSlot (tail : UInt64)
  | storeTail (tail : UInt64) (item : Option T)

/-- A `push` that returned; `queued` is how many items the queue had at its moments. -/
structure PushCall (T : Type) where
  item : T
  accepted : Bool
  queued : List Nat

/-- A `pop` that returned; `advanced` is whether it moved the tail. -/
structure PopCall (T : Type) where
  item : Option T
  advanced : Bool
  queued : List Nat

structure System (T : Type) where
  queue : Queue T
  producer : Producer T
  consumer : Consumer T
  pushes : List (PushCall T)
  pops : List (PopCall T)
  duringPush : List Nat
  duringPop : List Nat

namespace System

/-- The items that were pushed, oldest first. -/
def pushed (s : System T) : List T := (s.pushes.filter PushCall.accepted).map PushCall.item

/-- The items that were popped, in order. -/
def popped (s : System T) : List T := s.pops.filterMap PopCall.item

/-- How many positions the consumer has left behind. -/
def consumed (s : System T) : Nat := (s.pops.filter PopCall.advanced).length

def queued (s : System T) : Nat := s.pushed.length - s.consumed

/-- The positions between the tail and the head, with the item that the consumer has taken
but not accounted for. -/
def inFlight (s : System T) : List (Option T) :=
  let slots := (List.range (s.queue.head - s.queue.tail).toNat).map fun i =>
    s.queue.buffer (s.queue.index (s.queue.tail + UInt64.ofNat i))
  match s.consumer with
  | .storeTail _ item => item :: slots.tail
  | _ => slots

def pushReturns (s : System T) (item : T) (accepted : Bool) : System T :=
  { s with producer := .idle, pushes := s.pushes ++ [⟨item, accepted, s.duringPush⟩] }

def popReturns (s : System T) (item : Option T) (advanced : Bool) : System T :=
  { s with consumer := .idle, pops := s.pops ++ [⟨item, advanced, s.duringPop⟩] }

/-- A step of the producer in `push`. -/
def pushStep (s : System T) : System T :=
  match s.producer with
  | .idle => s
  | .loadHead item => { s with producer := .loadTail item s.queue.head }
  | .loadTail item head =>
    let nextHead := head + 1
    if nextHead - s.queue.tail > s.queue.capacity then s.pushReturns item false
    else { s with producer := .writeSlot item head }
  | .writeSlot item head =>
    { s with
      queue := { s.queue with
        buffer := Function.update s.queue.buffer (s.queue.index head) (some item) }
      producer := .storeHead item head }
  | .storeHead item head =>
    pushReturns { s with queue := { s.queue with head := head + 1 } } item true

/-- A step of the consumer in `pop`. -/
def popStep (s : System T) : System T :=
  match s.consumer with
  | .idle => s
  | .loadTail => { s with consumer := .loadHead s.queue.tail }
  | .loadHead tail =>
    if s.queue.head = tail then s.popReturns none false
    else { s with consumer := .takeSlot tail }
  | .takeSlot tail =>
    { s with
      queue := { s.queue with buffer := Function.update s.queue.buffer (s.queue.index tail) none }
      consumer := .storeTail tail (s.queue.buffer (s.queue.index tail)) }
  | .storeTail tail item =>
    popReturns { s with queue := { s.queue with tail := tail + 1 } } item true

/-- A moment of the calls that have not returned. -/
def note (s : System T) : System T :=
  { s with
    duringPush := s.duringPush ++ [s.queued]
    duringPop := s.duringPop ++ [s.queued] }

end System

/-- Who moves: the producer calls `push` or goes on in it, the consumer calls `pop` or goes
on in it. -/
inductive Move (T : Type)
  | push (item : T)
  | producer
  | pop
  | consumer

namespace System

/-- A move that cannot be made changes nothing. -/
def act (s : System T) : Move T → System T
  | .push item =>
    match s.producer with
    | .idle => { s with producer := .loadHead item, duringPush := [] }
    | _ => s
  | .producer => s.pushStep
  | .pop =>
    match s.consumer with
    | .idle => { s with consumer := .loadTail, duringPop := [] }
    | _ => s
  | .consumer => s.popStep

def step (s : System T) (move : Move T) : System T := (s.act move).note

def run (moves : List (Move T)) (s : System T) : System T := moves.foldl step s

/-- Both threads outside of a call. -/
def new (capacity start : UInt64) : System T := ⟨.new capacity start, .idle, .idle, [], [], [0], [0]⟩

end System

end LockFreeQueue

end IowarpCore
