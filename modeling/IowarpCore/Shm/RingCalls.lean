/-
The ring buffer under calls that come one after another.

Follows `ring_buffer.h` in its four configurations: what `Emplace` does to a full buffer is
chosen at compile time, and each choice is a branch of its own.  Positions count up and are
not reduced, as in the model of a lane; here no call overlaps another.

`Pop` gives nothing if the buffer is empty, and also if the entry at the head is not ready.
The copy constructor and `Resize` move entries from one storage to another, by index.
-/
import IowarpCore.Shm.RingBuffer
import IowarpCore.Lib.BoundedQueue

namespace IowarpCore
namespace RingBuffer

variable {α : Type}

/-- The configurations that the header names. -/
inductive Config where
  | extRingBuffer
  | spscRingBuffer
  | mpscRingBuffer
  | circularMpscRingBuffer
deriving DecidableEq, Repr

namespace Config

/-- `WaitForSpace`. -/
def waitForSpace : Config → Bool
  | .mpscRingBuffer => true
  | _ => false

/-- `ErrorOnNoSpace`. -/
def errorOnNoSpace : Config → Bool
  | .spscRingBuffer => true
  | _ => false

/-- `DynamicSize`. -/
def dynamicSize : Config → Bool
  | .extRingBuffer => true
  | _ => false

/-- The queue that a configuration of a depth stands for.  The circular one uses every
slot. -/
def queue : Config → Nat → BoundedQueue
  | .extRingBuffer, depth => ⟨depth, .refuse⟩
  | .spscRingBuffer, depth => ⟨depth, .refuse⟩
  | .mpscRingBuffer, depth => ⟨depth, .wait⟩
  | .circularMpscRingBuffer, depth => ⟨depth + 1, .dropOldest⟩

end Config

namespace Ring

/-- `Size`. -/
def bufferSize (r : Ring α) : Nat :=
  if r.tail ≥ r.head then r.tail - r.head else 0

/-- `Capacity`. -/
def capacity (r : Ring α) : Nat :=
  if r.size > 0 then r.size - 1 else 0

/-- `Empty`. -/
def isEmpty (r : Ring α) : Bool := r.head == r.tail

/-- `entry.data_ = val; entry.SetReady()`. -/
def fill (r : Ring α) (pos : Nat) (val : α) : Ring α :=
  { r with
    data := Function.update r.data (r.slot pos) val
    ready := Function.update r.ready (r.slot pos) true }

/-- `Emplace`.  `none` where it waits for space, since nobody makes any. -/
def emplace (config : Config) (r : Ring α) (val : α) : Option (Bool × Ring α) :=
  let head := r.head
  let tail := r.tail
  let r' := { r with tail := tail + 1 }
  let size := tail - head + 1
  if config.waitForSpace then
    if size ≥ r.size then none else some (true, r'.fill tail val)
  else if config.errorOnNoSpace then
    if size ≥ r.size then some (false, { r' with tail := r'.tail - 1 })
    else some (true, r'.fill tail val)
  else if config.dynamicSize then
    -- the buffer would have to grow here, which is left open, and the tail stays where it is
    if size ≥ r.size then some (false, r') else some (true, r'.fill tail val)
  else some (true, r'.fill tail val)

/-- `Pop`. -/
def pop (r : Ring α) : Option α × Ring α :=
  if r.head ≥ r.tail then (none, r)
  else if r.ready (r.slot r.head) then
    (some (r.data (r.slot r.head)),
      { r with
        ready := Function.update r.ready (r.slot r.head) false
        head := r.head + 1 })
  else (none, r)

/-- What is seen of the calls, up to the first that does not come back. -/
def observe (config : Config) : Ring α → List (QueueCall α) → List (QueueSight α)
  | _, [] => []
  | r, .push val :: calls =>
    match r.emplace config val with
    | none => []
    | some (accepted, r') =>
      ⟨accepted, none, r'.bufferSize, r'.isEmpty⟩ :: observe config r' calls
  | r, .pop :: calls =>
    ⟨r.pop.1.isSome, r.pop.1, r.pop.2.bufferSize, r.pop.2.isEmpty⟩ ::
      observe config r.pop.2 calls

/-- A call that comes back. -/
def Takes (config : Config) : QueueCall α → Ring α → Ring α → Prop
  | .push val, r, r' => ∃ accepted, r.emplace config val = some (accepted, r')
  | .pop, r, r' => r' = r.pop.2

/-! ### Moving the entries -/

/-- The loop of the copy constructor over the indices of `other`, into a storage of
`newSize` entries.  `none` if it reaches behind that. -/
def copyLoop (other : Ring α) (newSize : Nat) :
    List Nat → (Nat → Bool) × (Nat → α) → Option ((Nat → Bool) × (Nat → α))
  | [], queue => some queue
  | i :: rest, queue =>
    if i < newSize then
      copyLoop other newSize rest
        (Function.update queue.1 i (other.ready i), Function.update queue.2 i (other.data i))
    else none

/-- The copy constructor. -/
def copy [Inhabited α] (other : Ring α) : Option (Ring α) :=
  let newSize := other.size - 1
  (copyLoop other newSize (List.range other.size) (fun _ => false, fun _ => default)).map
    fun queue => ⟨newSize - 1, other.head, other.tail, queue.1, queue.2⟩

/-- The loop of `Resize`: from one buffer into the other, while `Pop` succeeds. -/
def resizeLoop (config : Config) : Nat → Ring α → Ring α → Option (Ring α × Ring α)
  | 0, r, newQueue => some (r, newQueue)
  | fuel + 1, r, newQueue =>
    match r.pop with
    | (none, r') => some (r', newQueue)
    | (some val, r') =>
      match newQueue.emplace config val with
      | none => none
      | some (_, newQueue') => resizeLoop config fuel r' newQueue'

/-- `Resize`: the storage is moved over, the counters stay.  No more entries can be popped
than there are positions between the counters. -/
def resize [Inhabited α] (config : Config) (r : Ring α) (newDepth : Nat) : Option (Ring α) :=
  (resizeLoop config r.bufferSize r (.new newDepth)).map fun p =>
    { p.1 with depth := p.2.depth, ready := p.2.ready, data := p.2.data }

/-- What `Pop` returns until it returns false. -/
def popsFuel : Nat → Ring α → List α
  | 0, _ => []
  | fuel + 1, r =>
    match r.pop with
    | (none, _) => []
    | (some val, r') => val :: popsFuel fuel r'

def pops (r : Ring α) : List α := popsFuel r.bufferSize r

/-- One push after another, `none` unless all are accepted. -/
def pushAll (config : Config) : List α → Ring α → Option (Ring α)
  | [], r => some r
  | val :: vals, r =>
    match r.emplace config val with
    | some (true, r') => pushAll config vals r'
    | _ => none

end Ring

end RingBuffer
end IowarpCore
