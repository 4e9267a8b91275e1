/-
`priv::vector<T, AllocT>`: an array that grows, vector.h.

The memory behind `data_` is a raw storage of `capacity_` cells, and a null pointer is one of
no cells.  `isPod` is `kIsPod`: objects of such a type are copied as memory and are never
destroyed.  An access outside the storage, a read of a cell in which no object lives, a
reference into memory that was freed, a `memcpy` between ranges that overlap, a block given to
an allocator it is not from, and a loop that does not end have no result (`none`).

Sizes are taken in `Nat`, as objects that are counted fit in memory; what is below zero wraps
around.  Allocation succeeds.  There is no `emplace_back`; the overloads for `T &&` do what
those for `const T &` do with a value from outside.  Iterators are positions.
-/
import IowarpCore.Lib.RawStorage
import IowarpCore.Shm.BasicString

namespace IowarpCore

namespace Priv

structure Vector (T : Type) where
  data : Storage T
  size : Nat
  /-- The allocator that `data_` is from. -/
  home : Option Nat
  /-- `nullptr` for a vector that was moved from. -/
  alloc : Option Nat

/-- What a `const T &` refers to: a value from outside, or an element of the vector itself. -/
inductive Arg (T : Type) where
  | value (x : T)
  | own (i : Nat)

/-- What a pair of iterators spans: elements from outside, or some of the vector itself. -/
inductive Span (T : Type) where
  | values (xs : List T)
  | own (first last : Nat)

def Span.length {T : Type} : Span T → Nat
  | .values xs => xs.length
  | .own first last => last - first

namespace Vector

variable {T : Type}

def capacity (v : Vector T) : Nat := v.data.length

/-- `vector(alloc)` -/
def new (alloc : Option Nat) : Vector T := ⟨[], 0, none, alloc⟩

/-- The block of `data_`, if there is one, can be given to the vector's allocator. -/
def Frees (v : Vector T) : Prop := v.capacity = 0 ∨ v.home = v.alloc

instance (v : Vector T) : Decidable v.Frees :=
  inferInstanceAs (Decidable (v.capacity = 0 ∨ v.home = v.alloc))

section Pod

variable (isPod : Bool)

/-- `DestroyRange` -/
def destroyRange (v : Vector T) (first last : Nat) : Option (Vector T) := do
  if isPod then some v
  else some { v with data := ← v.data.destroyRange first (last - first) }

/-- The elements in a new block of memory. -/
def relocated (v : Vector T) (newCapacity : Nat) : Option (Storage T) := do
  let new : Storage T := List.replicate newCapacity none
  if isPod then new.write 0 (← v.data.read 0 v.size)
  else do
    let (_, new) ← v.data.moveTo new 0 v.size
    some new

def reserve (v : Vector T) (newCapacity : Nat) : Option (Vector T) := do
  if newCapacity ≤ v.capacity ∨ v.alloc = none then some v
  else if v.capacity = 0 then
    some { v with data := List.replicate newCapacity none, home := v.alloc }
  else do
    let data ← v.relocated isPod newCapacity
    if v.Frees then some { v with data := data, home := v.alloc } else none

/-- `Grow` -/
def grow (v : Vector T) (minCapacity : Nat) : Option (Vector T) :=
  v.reserve isPod (Vec.doubled minCapacity (if v.capacity = 0 then 1 else v.capacity * 2) minCapacity)

/-- The start of everything that adds elements: `Grow` if they do not fit. -/
def makeRoom (v : Vector T) (newSize : Nat) : Option (Vector T) :=
  if v.capacity < newSize then v.grow isPod newSize else some v

def shrinkToFit (v : Vector T) : Option (Vector T) := do
  if v.size < v.capacity ∧ v.alloc ≠ none then
    if v.size = 0 then
      if v.Frees then some { v with data := [] } else none
    else do
      let data ← v.relocated isPod v.size
      if v.Frees then some { v with data := data, home := v.alloc } else none
  else some v

/-- The argument's value, when `v` is what the call found and `data` its memory by then; a
reallocation in between leaves a reference to an element dangling. -/
def readArg (v v' : Vector T) (data : Storage T) : Arg T → Option T
  | .value x => some x
  | .own i => if v'.capacity = v.capacity then data.load i else none

/-- `push_back` -/
def pushBack (v : Vector T) (val : Arg T) : Option (Vector T) := do
  let v' ← v.makeRoom isPod (v.size + 1)
  let data ← v'.data.construct v'.size (← readArg v v' v'.data val)
  some { v' with data := data, size := v'.size + 1 }

/-- `pop_back` -/
def popBack (v : Vector T) : Option (Vector T) := do
  if 0 < v.size then
    let v ← v.destroyRange isPod (v.size - 1) v.size
    some { v with size := v.size - 1 }
  else some v

def clear (v : Vector T) : Option (Vector T) := do
  let v ← v.destroyRange isPod 0 v.size
  some { v with size := 0 }

/-- The elements from `idx` on are moved `count` cells up.  The loop of `insert(pos, val)` is this
one for one cell: `i > idx` is `i >= idx + 1`, and it starts at `size_`, which is `size_ + 1 - 1`. -/
def openGap (v : Vector T) (idx count : Nat) : Option (Storage T) :=
  if isPod then v.data.memmove (idx + count) idx (v.size - idx)
  else Storage.shiftUp count (idx + count) (v.size + 2) (Storage.decr (v.size + count)) v.data

/-- `insert(pos, val)` -/
def insert (v : Vector T) (idx : Nat) (val : Arg T) : Option (Vector T) := do
  let v' ← v.makeRoom isPod (v.size + 1)
  let data ← v'.openGap isPod idx 1
  let data ← data.construct idx (← readArg v v' data val)
  some { v' with data := data, size := v'.size + 1 }

/-- The element of a span that the loop of `insert` reads. -/
def readSpan (v v' : Vector T) : Span T → Storage T → Nat → Option T
  | .values xs, _, k => xs[k]?
  | .own first _, data, k => if v'.capacity = v.capacity then data.load (first + k) else none

/-- The memory of a span that `insert` copies to `idx`. -/
def spanMemory (v v' : Vector T) (data : Storage T) (idx : Nat) : Span T → Option (Storage T)
  | .values xs => some (xs.map some)
  | .own first last =>
    let count := last - first
    if count = 0 then some []
    else if v'.capacity = v.capacity ∧ (last ≤ idx ∨ idx + count ≤ first) then
      data.read first count
    else none

/-- `insert(pos, first, last)` -/
def insertRange (v : Vector T) (idx : Nat) (src : Span T) : Option (Vector T) := do
  let count := src.length
  let v' ← v.makeRoom isPod (v.size + count)
  let data ← v'.openGap isPod idx count
  let data ←
    if isPod then do data.write idx (← spanMemory v v' data idx src)
    else data.fill idx count (readSpan v v' src)
  some { v' with data := data, size := v'.size + count }

/-- `erase(pos)` -/
def erase (v : Vector T) (idx : Nat) : Option (Vector T) := do
  let data ←
    if isPod then v.data.memmove idx (idx + 1) (v.size - idx - 1)
    else do
      let data ← v.data.destroy idx
      data.shiftDown 1 idx (v.size - 1 - idx)
  some { v with data := data, size := v.size - 1 }

/-- `erase(first, last)` -/
def eraseRange (v : Vector T) (first last : Nat) : Option (Vector T) := do
  let count := last - first
  let data ←
    if isPod then v.data.memmove first last (v.size - last)
    else do
      let data ← v.data.destroyRange first (last - first)
      data.shiftDown count first (v.size - count - first)
  some { v with data := data, size := v.size - count }

/-- Both `resize`, which differ in what the new elements are made from. -/
def resizeFrom (v : Vector T) (newSize : Nat) (val : Arg T) : Option (Vector T) := do
  if v.size < newSize then
    let v' ← (if v.capacity < newSize then v.reserve isPod newSize else some v)
    let data ← v'.data.fill v'.size (newSize - v'.size) fun data _ => readArg v v' data val
    some { v' with data := data, size := newSize }
  else if newSize < v.size then
    let v ← v.destroyRange isPod newSize v.size
    some { v with size := newSize }
  else some v

/-- `resize(new_size)` -/
def resize [Inhabited T] (v : Vector T) (newSize : Nat) : Option (Vector T) :=
  v.resizeFrom isPod newSize (.value default)

/-- `resize(new_size, value)` -/
def resizeWith (v : Vector T) (newSize : Nat) (value : Arg T) : Option (Vector T) :=
  v.resizeFrom isPod newSize value

/-- The elements, from `begin()` to `end()`. -/
def elements (v : Vector T) : Option (List T) := v.data.objects 0 v.size

/-- A loop of `push_back`. -/
def pushAll (v : Vector T) (xs : List T) : Option (Vector T) :=
  xs.foldlM (fun v x => v.pushBack isPod (.value x)) v

/-! ### Construction and assignment -/

/-- `vector(count, alloc)` -/
def ofCount [Inhabited T] (alloc : Option Nat) (count : Nat) : Option (Vector T) := do
  let v ← (new alloc).reserve isPod count
  let data ← v.data.fill 0 count fun _ _ => some default
  some { v with data := data, size := count }

/-- `vector(init, alloc)`, and `vector(count, value, alloc)` with `count` times the value. -/
def ofList (alloc : Option Nat) (init : List T) : Option (Vector T) := do
  let v ← (new alloc).reserve isPod init.length
  v.pushAll isPod init

/-- `vector(const vector &)` -/
def ofCopy (other : Vector T) : Option (Vector T) := do
  let v := new other.alloc
  if v.alloc ≠ none then
    let v ← v.reserve isPod other.size
    v.pushAll isPod (← other.elements)
  else some v

/-- A vector that was moved from. -/
def moved : Vector T := new none

/-- The destructor. -/
def destruct (v : Vector T) : Option Unit := do
  let v ← v.clear isPod
  if v.alloc = none ∨ v.Frees then some () else none

/-- `operator=(const vector &)`, from another vector. -/
def assignCopy (v other : Vector T) : Option (Vector T) := do
  let v ← v.clear isPod
  let v := { v with alloc := other.alloc }
  if v.alloc ≠ none then
    let v ← v.reserve isPod other.size
    v.pushAll isPod (← other.elements)
  else some v

/-- `operator=(vector &&)`, from another vector; what that one becomes is `moved`. -/
def assignMove (v other : Vector T) : Option (Vector T) := do
  v.destruct isPod
  some other

/-- `operator=(std::initializer_list<T>)` -/
def assignList (v : Vector T) (init : List T) : Option (Vector T) := do
  let v ← v.clear isPod
  let v ← v.reserve isPod init.length
  v.pushAll isPod init

end Pod

/-- `swap`; the allocators stay. -/
def swap (v other : Vector T) : Vector T × Vector T :=
  ({ other with alloc := v.alloc }, { v with alloc := other.alloc })

/-- `operator[]` -/
def get? (v : Vector T) (pos : Nat) : Option T := v.data.load pos

end Vector

/-! ### Programs -/

/-- The vectors of a program by name. -/
abbrev Vectors (T : Type) := Nat → Vector T

/-- One of them becomes the result. -/
def putAt {α : Type} (vs : Nat → α) (i : Nat) (r : Option α) : Option (Nat → α) :=
  r.map (Function.update vs i)

/-- What a vector is constructed from. -/
inductive VecInit (T : Type) where
  | empty
  | count (count : Nat)
  | list (init : List T)
  | copy (j : Nat)
  | move (j : Nat)

/-- What a vector is assigned from. -/
inductive VecAssigned (T : Type) where
  | copy (j : Nat)
  | move (j : Nat)
  | list (init : List T)

inductive VecOp (T : Type) where
  /-- A new vector takes the place of an old one, which is destroyed. -/
  | construct (i : Nat) (alloc : Option Nat) (init : VecInit T)
  | assign (i : Nat) (from_ : VecAssigned T)
  | pushBack (i : Nat) (val : Arg T)
  | popBack (i : Nat)
  | insert (i idx : Nat) (val : Arg T)
  | insertRange (i idx : Nat) (src : Span T)
  | erase (i idx : Nat)
  | eraseRange (i first last : Nat)
  | resize (i newSize : Nat)
  | resizeWith (i newSize : Nat) (value : Arg T)
  | reserve (i newCapacity : Nat)
  | shrinkToFit (i : Nat)
  | swap (i j : Nat)
  | clear (i : Nat)

namespace Vectors

variable {T : Type} [Inhabited T] (isPod : Bool)

/-- The new vector, and the others after it was made. -/
def construct (vs : Vectors T) (alloc : Option Nat) : VecInit T → Option (Vector T × Vectors T)
  | .empty => some (.new alloc, vs)
  | .count count => (Vector.ofCount isPod alloc count).map (·, vs)
  | .list init => (Vector.ofList isPod alloc init).map (·, vs)
  | .copy j => ((vs j).ofCopy isPod).map (·, vs)
  | .move j => some (vs j, Function.update vs j .moved)

def assign (vs : Vectors T) (i : Nat) : VecAssigned T → Option (Vectors T)
  | .copy j => if j = i then some vs else putAt vs i ((vs i).assignCopy isPod (vs j))
  | .move j =>
    if j = i then some vs
    else do
      let v ← (vs i).assignMove isPod (vs j)
      some (Function.update (Function.update vs i v) j .moved)
  | .list init => putAt vs i ((vs i).assignList isPod init)

def step (vs : Vectors T) : VecOp T → Option (Vectors T)
  | .construct i alloc init => do
      let (v, vs) ← vs.construct isPod alloc init
      (vs i).destruct isPod
      some (Function.update vs i v)
  | .assign i from_ => vs.assign isPod i from_
  | .pushBack i val => putAt vs i ((vs i).pushBack isPod val)
  | .popBack i => putAt vs i ((vs i).popBack isPod)
  | .insert i idx val => putAt vs i ((vs i).insert isPod idx val)
  | .insertRange i idx src => putAt vs i ((vs i).insertRange isPod idx src)
  | .erase i idx => putAt vs i ((vs i).erase isPod idx)
  | .eraseRange i first last => putAt vs i ((vs i).eraseRange isPod first last)
  | .resize i newSize => putAt vs i ((vs i).resize isPod newSize)
  | .resizeWith i newSize value => putAt vs i ((vs i).resizeWith isPod newSize value)
  | .reserve i newCapacity => putAt vs i ((vs i).reserve isPod newCapacity)
  | .shrinkToFit i => putAt vs i ((vs i).shrinkToFit isPod)
  | .swap i j =>
    some (Function.update (Function.update vs i ((vs i).swap (vs j)).1) j ((vs i).swap (vs j)).2)
  | .clear i => putAt vs i ((vs i).clear isPod)

end Vectors

end Priv

end IowarpCore
