/-
The ring buffer of a worker's lane.

Follows `Emplace` and `Pop` of `ring_buffer.h` as `mpsc_ring_buffer` instantiates them:
several producers, one consumer, and a producer waits for space.  Every load, fetch_add,
slot write, slot read and update of a ready flag is a step of its own; a place says which
one a thread does next and holds the locals that are live there.

Positions count up from 0 and are not reduced: `head_` and `tail_` are 64 bit wide, and no
lane lives to see `2 ^ 64` pushes.  `tail - head` is then the difference of numbers,
since a position never falls behind the head a producer has loaded (`Inv.inFlight` in
the proofs).

Beside the buffer stands what has happened, which the code does not keep.
-/
import IowarpCore.Lib.Threads

namespace IowarpCore
namespace RingBuffer

variable {α : Type}

/-- `ring_buffer`.  `queue_` has `depth + 1` entries. -/
structure Ring (α : Type) where
  depth : Nat
  head : Nat
  tail : Nat
  ready : Nat → Bool
  data : Nat → α

/-- `queue_.size()`. -/
def Ring.size (r : Ring α) : Nat :=
  r.depth + 1

/-- The entry of a position. -/
def Ring.slot (r : Ring α) (pos : Nat) : Nat :=
  pos % r.size

/-- `ring_buffer(alloc, depth)`. -/
def Ring.new [Inhabited α] (depth : Nat) : Ring α :=
  ⟨depth, 0, 0, fun _ => false, fun _ => default⟩

/-- A producer in `Emplace`. -/
inductive Producer (α : Type) where
  | idle
  | loadHead (val : α)
  | addTail (val : α) (head : Nat)
  /- in the loop that waits for space -/
  | waitSpace (val : α) (tail : Nat)
  | writeData (val : α) (tail : Nat)
  | setReady (tail : Nat)
deriving DecidableEq, Repr

/-- The consumer in `Pop`. -/
inductive Consumer (α : Type) where
  | idle
  | loadHead
  | loadTail (head : Nat)
  | isReady (head : Nat)
  | readData (head : Nat)
  | clearReady (head : Nat) (val : α)
  | addHead (val : α)
deriving DecidableEq, Repr

/-- What has happened: the calls of `Push`, by producer and value; the positions that were
reserved, in order; the ones that were published; and what `Pop` returned, `none` for
false. -/
structure History (α : Type) where
  calls : List (Nat × α)
  reserved : List (Nat × α)
  published : List Nat
  results : List (Option α)
deriving DecidableEq, Repr

structure Lane (α : Type) where
  ring : Ring α
  consumer : Consumer α
  past : History α

/-- A lane and its producers. -/
abbrev System (α : Type) := Threads (Lane α) (Producer α)

/-- What happens next: a producer calls `Push`, or goes on in it; the consumer calls `Pop`,
or goes on in it. -/
inductive Move (α : Type) where
  | push (i : Nat) (val : α)
  | producer (i : Nat)
  | pop
  | consumer

/-- Where a producer goes with a position and a head that it has loaded. -/
def afterHead (r : Ring α) (val : α) (tail head : Nat) : Producer α :=
  if tail - head + 1 ≥ r.size then .waitSpace val tail else .writeData val tail

/-- A step of producer `i` in `Emplace`. -/
def emplaceStep (i : Nat) (s : Lane α) : Producer α → Option (Lane α × Producer α)
  | .idle => none
  | .loadHead val => some (s, .addTail val s.ring.head)
  | .addTail val head =>
    some ({ s with
        ring := { s.ring with tail := s.ring.tail + 1 }
        past := { s.past with reserved := s.past.reserved ++ [(i, val)] } },
      afterHead s.ring val s.ring.tail head)
  | .waitSpace val tail => some (s, afterHead s.ring val tail s.ring.head)
  | .writeData val tail =>
    some ({ s with
        ring := { s.ring with data := Function.update s.ring.data (s.ring.slot tail) val } },
      .setReady tail)
  | .setReady tail =>
    some ({ s with
        ring := { s.ring with ready := Function.update s.ring.ready (s.ring.slot tail) true }
        past := { s.past with published := s.past.published ++ [tail] } },
      .idle)

/-- `Pop` returns. -/
def Lane.popped (s : Lane α) (result : Option α) : Lane α :=
  { s with consumer := .idle, past := { s.past with results := s.past.results ++ [result] } }

/-- A step of the consumer in `Pop`. -/
def popStep (s : Lane α) : Option (Lane α) :=
  match s.consumer with
  | .idle => none
  | .loadHead => some { s with consumer := .loadTail s.ring.head }
  | .loadTail head =>
    if head ≥ s.ring.tail then some (s.popped none)
    else some { s with consumer := .isReady head }
  | .isReady head =>
    if s.ring.ready (s.ring.slot head) then some { s with consumer := .readData head }
    else some (s.popped none)
  | .readData head => some { s with consumer := .clearReady head (s.ring.data (s.ring.slot head)) }
  | .clearReady head val =>
    some { s with
      ring := { s.ring with ready := Function.update s.ring.ready (s.ring.slot head) false }
      consumer := .addHead val }
  | .addHead val =>
    some (Lane.popped { s with ring := { s.ring with head := s.ring.head + 1 } } (some val))

def step (mv : Move α) (s : System α) : Option (System α) :=
  match mv with
  | .push i val =>
    match s.locals[i]? with
    | some .idle =>
      some ⟨{ s.shared with
        past := { s.shared.past with calls := s.shared.past.calls ++ [(i, val)] } },
        s.locals.set i (.loadHead val)⟩
    | _ => none
  | .producer i =>
    match s.locals[i]? with
    | some p => (emplaceStep i s.shared p).map fun r => ⟨r.1, s.locals.set i r.2⟩
    | none => none
  | .pop =>
    match s.shared.consumer with
    | .idle => some { s with shared := { s.shared with consumer := .loadHead } }
    | _ => none
  | .consumer => (popStep s.shared).map fun sh => { s with shared := sh }

/-- An empty lane of a depth, with `n` producers. -/
def start [Inhabited α] (depth n : Nat) : System α :=
  ⟨⟨.new depth, .idle, ⟨[], [], [], []⟩⟩, List.replicate n .idle⟩

/-- The values that `Pop` returned. -/
def History.taken (h : History α) : List α :=
  h.results.filterMap id

/-- The values of a producer, of a list of values with their producers. -/
def ofProducer (i : Nat) (l : List (Nat × α)) : List α :=
  (l.filter (·.1 == i)).map Prod.snd

/-- Nothing is lost, nothing comes twice, and everything comes in order. -/
structure Lossless (s : System α) : Prop where
  /-- what was popped are the first reserved positions, each once and in their order -/
  inOrder : s.shared.past.taken <+: s.shared.past.reserved.map Prod.snd
  /-- of each producer, the values popped are the first it pushed, in the order pushed -/
  perProducer : ∀ i, ofProducer i (s.shared.past.reserved.take s.shared.past.taken.length) <+:
    ofProducer i s.shared.past.calls
  /-- who writes an entry finds that all that was in it before has been popped -/
  kept : ∀ (i : Nat) (val : α) (tail : Nat), s.locals[i]? = some (.writeData val tail) →
    ∀ pos < tail, s.shared.ring.slot pos = s.shared.ring.slot tail →
      pos < s.shared.past.taken.length
  /-- `Pop` returns false only if the value at the head is not published -/
  popFalse : ∀ s' : System α, step .consumer s = some s' →
    s'.shared.past.results = s.shared.past.results ++ [none] →
    s.shared.ring.head ∉ s.shared.past.published

end RingBuffer
end IowarpCore
