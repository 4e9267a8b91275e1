/-
`priv::basic_string<char>`: a short string lies in the object, a long one in a vector.

The object's `storage_` is a union of the inline buffer and the pointer to the vector, so
it is modelled by its bytes: storing the pointer writes eight of them, and reading the
buffer or the pointer reads whatever they hold by then.  Vectors live in a heap by their
address.  A read or a write outside what it may touch, and a pointer that leads to no
live vector, have no result (`none`).

`size_t` sums of lengths are taken in `Nat`: a string is shorter than memory is large.
What `operator new` returns is an input of each call.  The bytes of a new object and of
new vector memory are not specified by the source; they are zero here.
-/
import IowarpCore.Lib.Bytes

namespace IowarpCore

namespace Priv

/-! ### Memory -/

/-- `len` bytes from `pos` on. -/
def readMem (mem : Bytes) (pos len : Nat) : Option Bytes :=
  if pos + len ≤ mem.length then some ((mem.drop pos).take len) else none

/-- `memcpy` or `memmove` to `pos`. -/
def writeMem (mem : Bytes) (pos : Nat) (bytes : Bytes) : Option Bytes :=
  if pos + bytes.length ≤ mem.length then
    some (mem.take pos ++ bytes ++ mem.drop (pos + bytes.length))
  else none

/-- `memcmp`, by the sign of its result. -/
def memcmp : Bytes → Bytes → Nat → Option Ordering
  | _, _, 0 => some .eq
  | x :: xs, y :: ys, len + 1 => if x = y then memcmp xs ys len else some (compare x y)
  | _, _, _ => none

/-! ### `priv::vector` -/

/-- `priv::vector<char>`: `data` is the memory behind `data_`, `capacity_` characters. -/
structure Vec where
  data : Bytes
  size : Nat
  /-- `nullptr` for a vector that was given no allocator. -/
  alloc : Option Nat
  deriving DecidableEq

namespace Vec

def new (alloc : Option Nat) : Vec := ⟨[], 0, alloc⟩

def capacity (v : Vec) : Nat := v.data.length

def reserve (v : Vec) (newCapacity : Nat) : Vec :=
  if newCapacity ≤ v.capacity ∨ v.alloc = none then v
  else { v with data := v.data.take v.size ++ List.replicate (newCapacity - v.size) 0 }

/-- The doubling loop of `Grow`; `minCapacity` rounds are enough. -/
def doubled : Nat → Nat → Nat → Nat
  | 0, newCapacity, _ => newCapacity
  | rounds + 1, newCapacity, minCapacity =>
    if newCapacity < minCapacity then doubled rounds (newCapacity * 2) minCapacity
    else newCapacity

def grow (v : Vec) (minCapacity : Nat) : Vec :=
  v.reserve (doubled minCapacity (if v.capacity = 0 then 1 else v.capacity * 2) minCapacity)

def pushBack (v : Vec) (c : UInt8) : Option Vec :=
  let v := if v.capacity ≤ v.size then v.grow (v.size + 1) else v
  -- a null allocator leaves `data_` as it was, and the write goes past its end
  if v.size < v.capacity then some { v with data := v.data.set v.size c, size := v.size + 1 }
  else none

def pushAll (v : Vec) (chars : Bytes) : Option Vec := chars.foldlM pushBack v

/-- `push_back(s[i])` for `len` values of `i`, where `s` points at `pos` in this vector's
own data.  A reallocation on the way leaves `s` dangling. -/
def pushOwn (v : Vec) (pos : Nat) : Nat → Option Vec
  | 0 => some v
  | len + 1 => do
    let c ← v.data[pos]?
    let v' ← v.pushBack c
    if v'.capacity = v.capacity then v'.pushOwn (pos + 1) len else none

def shrinkToFit (v : Vec) : Vec :=
  if v.size < v.capacity ∧ v.alloc ≠ none then { v with data := v.data.take v.size } else v

end Vec

/-! ### The string object -/

/-- The live vectors by address. -/
abbrev VecHeap := UInt64 → Option Vec

structure BasicString where
  /-- The bytes of the union `storage_`. -/
  storage : Bytes
  size : Nat
  usingSso : Bool
  alloc : Option Nat
  deriving DecidableEq

/-- A string operation's result: the heap and the string after it. -/
abbrev Outcome := Option (VecHeap × BasicString)

/-- The same for an operation that can throw `std::out_of_range` and then changes nothing. -/
abbrev Checked := Option (Except String (VecHeap × BasicString))

namespace BasicString

/-- `storage_.vec_`: the pointer that the first eight bytes spell. -/
def vec (s : BasicString) : UInt64 := UInt64.ofNat (leNat (s.storage.take 8))

/-- `storage_.vec_ = p` -/
def setVec (s : BasicString) (p : UInt64) : BasicString :=
  { s with storage := writeU64 p ++ s.storage.drop 8 }

/-- `this` before a constructor's body, with room for the buffer and for a pointer.
`SSOSize` is `n` throughout, at least 1 as an array's length has to be. -/
def blank (n : Nat) (alloc : Option Nat) : BasicString :=
  ⟨List.replicate (max n 8) 0, 0, true, alloc⟩

/-- `delete storage_.vec_` -/
def deleteVec (h : VecHeap) (s : BasicString) : Option VecHeap :=
  (h s.vec).map fun _ => Function.update h s.vec none

section Size

variable (n : Nat)

def readBuffer (s : BasicString) (pos len : Nat) : Option Bytes :=
  readMem (s.storage.take n) pos len

def writeBuffer (s : BasicString) (pos : Nat) (bytes : Bytes) : Option BasicString :=
  (writeMem (s.storage.take n) pos bytes).map fun buffer =>
    { s with storage := buffer ++ s.storage.drop n }

/-- Characters into the buffer at `pos`, `size_` to their end and the terminator there. -/
def setInline (s : BasicString) (pos : Nat) (chars : Bytes) : Option BasicString :=
  (s.writeBuffer n pos (chars ++ [0])).map fun s => { s with size := pos + chars.length }

/-- The memory `GetData` points to. -/
def getData (h : VecHeap) (s : BasicString) : Option Bytes :=
  if s.usingSso then some (s.storage.take n) else (h s.vec).map Vec.data

/-- `std::string(GetData(), size_)` -/
def str (h : VecHeap) (s : BasicString) : Option Bytes := do
  readMem (← s.getData n h) 0 s.size

def at? (h : VecHeap) (s : BasicString) (pos : Nat) : Option UInt8 := do
  (← s.getData n h)[pos]?

def capacity (h : VecHeap) (s : BasicString) : Option Nat :=
  if s.usingSso then some n else (h s.vec).map Vec.capacity

/-- `storage_.vec_ = new vector(alloc_)`, room for `cap`, and the characters pushed. -/
def newVector (h : VecHeap) (s : BasicString) (p : UInt64) (cap : Nat) (chars : Bytes) :
    Outcome := do
  let v ← ((Vec.new s.alloc).reserve cap).pushAll chars
  some (Function.update h p (some v), s.setVec p)

/-- What a `const T *` argument points to: characters outside the string, or the string's
own characters from a position on. -/
inductive Source
  | chars (s : Bytes)
  | own (pos len : Nat)

namespace Source

def length : Source → Nat
  | chars s => s.length
  | own _ len => len

/-- The characters read through the pointer; `mem` is the string's memory by then. -/
def read (mem : Bytes) : Source → Option Bytes
  | chars s => some s
  | own pos len => readMem mem pos len

/-- The memory read overlaps the one written from `pos` on, which `memcpy` forbids. -/
def overlaps (pos : Nat) : Source → Bool
  | chars _ => false
  | own start len => pos < start + len ∧ start < pos + len

end Source

/-! ### Construction -/

/-- The text of a C string: up to its terminator. -/
def cStr (s : Bytes) : Bytes := s.takeWhile (· ≠ 0)

/-- The body the constructors and the assignments share, on a string that is inline and
empty. -/
def fill (h : VecHeap) (s : BasicString) (p : UInt64) (chars : Bytes) : Outcome :=
  if chars.length < n - 1 then do
    let s ← s.setInline n 0 chars
    some (h, s)
  else do
    let (h, s) ← s.newVector h p (chars.length + 1) chars
    some (h, { s with size := chars.length, usingSso := false })

def ofAlloc (h : VecHeap) (alloc : Option Nat) : Outcome := do
  let s ← (blank n alloc).writeBuffer n 0 [0]
  some (h, s)

def ofCStr (h : VecHeap) (alloc : Option Nat) (p : UInt64) : Option Bytes → Outcome
  | some s => (blank n alloc).fill n h p (cStr s)
  | none => ofAlloc n h alloc

def ofCount (h : VecHeap) (alloc : Option Nat) (p : UInt64) (count : Nat) (c : UInt8) : Outcome :=
  (blank n alloc).fill n h p (List.replicate count c)

def ofInit (h : VecHeap) (alloc : Option Nat) (p : UInt64) (init : Bytes) : Outcome :=
  (blank n alloc).fill n h p init

def ofStdString (h : VecHeap) (alloc : Option Nat) (p : UInt64) (str : Bytes) : Outcome :=
  (blank n alloc).fill n h p str

/-- `npos` -/
def npos : Nat := 2 ^ 64 - 1

/-- The part a position and a count select. -/
def partLength (size pos count : Nat) : Nat :=
  min (if count = npos then size - pos else count) (size - pos)

def ofSubstr (h : VecHeap) (other : BasicString) (pos count : Nat) (alloc : Option Nat)
    (p : UInt64) : Checked :=
  if other.size < pos then some (.error "Substring position out of range")
  else do
    let chars ← readMem (← other.getData n h) pos (partLength other.size pos count)
    ((blank n alloc).fill n h p chars).map .ok

def ofCopy (h : VecHeap) (other : BasicString) (p : UInt64) : Outcome := do
  let chars ← readMem (← other.getData n h) 0 other.size
  (blank n other.alloc).fill n h p chars

/-- What the move constructor and the move assignment leave: this string and the other. -/
def take (s other : BasicString) : Option (BasicString × BasicString) := do
  let this := { s with size := other.size, usingSso := other.usingSso, alloc := other.alloc }
  let this ←
    if other.usingSso then do this.setInline n 0 (← other.readBuffer n 0 other.size)
    else some { this with storage := other.storage.take 8 ++ this.storage.drop 8 }
  some (this, { other with size := 0, usingSso := true, alloc := none })

/-! ### Assignment -/

/-- The start of every assignment: the vector goes, and the string is inline and empty. -/
def release (h : VecHeap) (s : BasicString) : Outcome := do
  let h ← if s.usingSso then some h else s.deleteVec h
  some (h, { s with size := 0, usingSso := true })

def clear (h : VecHeap) (s : BasicString) : Outcome := do
  let (h, s) ← s.release h
  let s ← s.writeBuffer n 0 [0]
  some (h, s)

def assignCopy (h : VecHeap) (s other : BasicString) (p : UInt64) : Outcome := do
  let (h, s) ← s.release h
  let chars ← readMem (← other.getData n h) 0 other.size
  { s with alloc := other.alloc }.fill n h p chars

def assignMove (h : VecHeap) (s other : BasicString) :
    Option (VecHeap × BasicString × BasicString) := do
  let (h, s) ← s.release h
  let (s, other) ← s.take n other
  some (h, s, other)

def assignCStr (h : VecHeap) (s : BasicString) (p : UInt64) : Option Bytes → Outcome
  | none => s.clear n h
  | some t => do
    let (h, s) ← s.release h
    s.fill n h p (cStr t)

def assignInit (h : VecHeap) (s : BasicString) (p : UInt64) (init : Bytes) : Outcome := do
  let (h, s) ← s.release h
  s.fill n h p init

def assignStdString (h : VecHeap) (s : BasicString) (p : UInt64) (str : Bytes) : Outcome := do
  let (h, s) ← s.release h
  s.fill n h p str

/-! ### Growth -/

/-- From the buffer to a vector with room for `cap`.  The pointer is stored first: the
loop that copies the characters reads the buffer after it. -/
def toVector (h : VecHeap) (s : BasicString) (p : UInt64) (cap : Nat) : Outcome := do
  let chars ← (s.setVec p).readBuffer n 0 s.size
  let (h, s) ← s.newVector h p cap chars
  some (h, { s with usingSso := false })

/-- A change of the vector that `vec_` points to. -/
def onVec (h : VecHeap) (s : BasicString) (f : Vec → Option Vec) : Option VecHeap := do
  let v ← f (← h s.vec)
  some (Function.update h s.vec (some v))

def reserve (h : VecHeap) (s : BasicString) (p : UInt64) (newCapacity : Nat) : Outcome := do
  if newCapacity ≤ (← s.capacity n h) then some (h, s)
  else if s.usingSso then s.toVector n h p newCapacity
  else do
    let h ← s.onVec h fun v => some (v.reserve newCapacity)
    some (h, s)

def shrinkToFit (h : VecHeap) (s : BasicString) : Outcome :=
  if s.usingSso then some (h, s)
  else if s.size < n - 1 then do
    let old ← h s.vec
    let t ← s.setInline n 0 (← readMem old.data 0 s.size)
    let h ← s.deleteVec h
    some (h, { t with usingSso := true })
  else do
    let h ← s.onVec h fun v => some v.shrinkToFit
    some (h, s)

def pushBack (h : VecHeap) (s : BasicString) (p : UInt64) (c : UInt8) : Outcome :=
  if s.usingSso then
    if s.size + 1 ≤ n - 1 then do
      let s ← s.setInline n s.size [c]
      some (h, s)
    else do
      let (h, s) ← s.toVector n h p 0
      let h ← s.onVec h (Vec.pushBack · c)
      some (h, { s with size := s.size + 1 })
  else do
    let h ← s.onVec h (Vec.pushBack · c)
    some (h, { s with size := s.size + 1 })

/-- A loop of `push_back`. -/
def pushChars (h : VecHeap) (s : BasicString) (p : UInt64) (chars : Bytes) : Outcome :=
  chars.foldlM (fun (r : VecHeap × BasicString) c => r.2.pushBack n r.1 p c) (h, s)

def popBack (h : VecHeap) (s : BasicString) : Outcome :=
  if 0 < s.size then
    if s.usingSso then do
      let s ← s.setInline n (s.size - 1) []
      some (h, s)
    else some (h, { s with size := s.size - 1 })
  else some (h, s)

def resize (h : VecHeap) (s : BasicString) (p : UInt64) (count : Nat) : Outcome :=
  if count < s.size then
    if s.usingSso then do
      let s ← s.setInline n count []
      some (h, s)
    else do
      let h ← s.onVec h fun v => do some { v with data := ← writeMem v.data count [0] }
      some (h, { s with size := count })
  else if s.size < count then do
    let (h, s) ← s.reserve n h p (count + 1)
    s.pushChars n h p (List.replicate (count - s.size) 0)
  else some (h, s)

def appendCStr (h : VecHeap) (s : BasicString) (p : UInt64) (src : Source) : Outcome :=
  if src.length = 0 then some (h, s)
  else if s.usingSso ∧ s.size + src.length ≤ n - 1 then do
    let s ← s.setInline n s.size (← src.read (s.storage.take n))
    some (h, s)
  else if s.usingSso then do
    -- own characters lie in the buffer, under the pointer that was just stored in it
    let chars ← src.read ((s.setVec p).storage.take n)
    let (h, s) ← s.toVector n h p (s.size + src.length + 1)
    let h ← s.onVec h (Vec.pushAll · chars)
    some (h, { s with size := s.size + src.length })
  else do
    let h ← s.onVec h fun v =>
      let v' := v.reserve (s.size + src.length + 1)
      match src with
      | .chars t => v'.pushAll t
      | .own pos len => if v'.capacity = v.capacity then v'.pushOwn pos len else none
    some (h, { s with size := s.size + src.length })

/-! ### Replacement -/

/-- A heap string's new content, put together in a local vector and then copied to a
vector that replaces the string's. -/
def replaceVec (h : VecHeap) (s : BasicString) (q : UInt64) (pos repCount : Nat) (str : Source) :
    Outcome := do
  let data ← s.getData n h
  let before ← readMem data 0 pos
  let chars ← str.read data
  let after ← readMem data (pos + repCount) (s.size - (pos + repCount))
  let newVec ← (Vec.new s.alloc).pushAll (before ++ chars ++ after)
  let content ← readMem newVec.data 0 newVec.size
  let h ← s.deleteVec h
  let (h, s) ← s.newVector h q 0 content
  some (h, { s with size := newVec.size })

/-- `replace(pos, count, str)` after its check; `str` is another string's characters, or
this string. -/
def replaceAt (h : VecHeap) (s : BasicString) (p q : UInt64) (pos count : Nat) (str : Source) :
    Outcome :=
  let repCount := min count (s.size - pos)
  let newSize := s.size - repCount + str.length
  if s.usingSso ∧ newSize ≤ n - 1 then do
    let tail ← s.readBuffer n (pos + repCount) (s.size - pos - repCount)
    let t ← s.writeBuffer n (pos + str.length) tail
    let chars ← if str.overlaps pos then none else str.read (t.storage.take n)
    let t ← t.writeBuffer n pos chars
    let t ← t.setInline n newSize []
    some (h, t)
  else do
    let (h, s) ← if s.usingSso then s.toVector n h p (newSize + 1) else some (h, s)
    s.replaceVec n h q pos repCount str

def replace (h : VecHeap) (s : BasicString) (p q : UInt64) (pos count : Nat) (str : Source) :
    Checked :=
  if s.size < pos then some (.error "Replace position out of range")
  else (s.replaceAt n h p q pos count str).map .ok

def eraseAt (h : VecHeap) (s : BasicString) (pos count : Nat) : Outcome :=
  let eraseCount := partLength s.size pos count
  let rest := s.size - pos - eraseCount
  if s.usingSso then do
    let tail ← s.readBuffer n (pos + eraseCount) rest
    let t ← s.writeBuffer n pos tail
    let t ← t.setInline n (s.size - eraseCount) []
    some (h, t)
  else do
    let h ← s.onVec h fun v => do
      let tail ← readMem v.data (pos + eraseCount) rest
      some { v with data := ← writeMem v.data pos tail }
    some (h, { s with size := s.size - eraseCount })

def erase (h : VecHeap) (s : BasicString) (pos count : Nat) : Checked :=
  if s.size < pos then some (.error "Erase position out of range")
  else (s.eraseAt n h pos count).map .ok

/-- `replace(pos, count, s)` for a C string: through a temporary at `r`, which is destroyed
also when the replacement throws. -/
def replaceCStr (h : VecHeap) (s : BasicString) (p q r : UInt64) (pos count : Nat) :
    Option Bytes → Checked
  | none => s.erase n h pos count
  | some t => do
    let (h, temp) ← ofCStr n h s.alloc r (some t)
    match ← s.replace n h p q pos count (.chars (← temp.str n h)) with
    | .error e => some (.error e)
    | .ok (h, s) => do
      let (h, _) ← temp.release h
      some (.ok (h, s))

/-! ### Comparison and search -/

/-- The body of `==`, against `len` characters at `other`. -/
def equalsTo (h : VecHeap) (s : BasicString) (len : Nat) (other : Option Bytes) : Option Bool := do
  if s.size ≠ len then some false
  else some ((← memcmp (← s.getData n h) (← other) s.size) == .eq)

def equals (h : VecHeap) (s t : BasicString) : Option Bool :=
  s.equalsTo n h t.size (t.getData n h)

def equalsCStr (h : VecHeap) (s : BasicString) : Option Bytes → Option Bool
  | none => some (s.size == 0)
  | some t => s.equalsTo n h (cStr t).length (some (cStr t))

/-- The body of `compare`. -/
def compareTo (h : VecHeap) (s : BasicString) (len : Nat) (other : Option Bytes) :
    Option Ordering := do
  let result ← memcmp (← s.getData n h) (← other) (min s.size len)
  if result ≠ .eq then some result
  else if s.size < len then some .lt
  else if len < s.size then some .gt
  else some .eq

def compare (h : VecHeap) (s t : BasicString) : Option Ordering :=
  s.compareTo n h t.size (t.getData n h)

def compareCStr (h : VecHeap) (s : BasicString) : Option Bytes → Option Ordering
  | none => some (if 0 < s.size then .gt else .eq)
  | some t => s.compareTo n h (cStr t).length (some (cStr t))

/-- A search loop: the first of `count` positions from `i` on that hits. -/
def search (hit : Nat → Option Bool) : Nat → Nat → Option (Option Nat)
  | 0, _ => some none
  | count + 1, i => do if ← hit i then some (some i) else search hit count (i + 1)

/-- `a - b` in `size_t`. -/
def sub64 (a b : Nat) : Nat := (2 ^ 64 + a - b) % 2 ^ 64

/-- The body of `find`; `none` inside is `npos`. -/
def findText (h : VecHeap) (s : BasicString) (len : Nat) (other : Option Bytes) (pos : Nat) :
    Option (Option Nat) :=
  if len = 0 then some (if pos ≤ s.size then some pos else none)
  else if s.size < (pos + len) % 2 ^ 64 then some none
  else do
    let data ← s.getData n h
    search (fun i => do some ((← memcmp (data.drop i) (← other) len) == .eq))
      (sub64 s.size len + 1 - pos) pos

def find (h : VecHeap) (s t : BasicString) (pos : Nat) : Option (Option Nat) :=
  s.findText n h t.size (t.getData n h) pos

def findCStr (h : VecHeap) (s : BasicString) (t : Option Bytes) (pos : Nat) :
    Option (Option Nat) :=
  match t with
  | none => some (if pos ≤ s.size then some pos else none)
  | some t => s.findText n h (cStr t).length (some (cStr t)) pos

def findChar (h : VecHeap) (s : BasicString) (c : UInt8) (pos : Nat) : Option (Option Nat) :=
  if s.size ≤ pos then some none
  else do
    let data ← s.getData n h
    search (fun i => do some ((← data[i]?) == c)) (s.size - pos) pos

end Size

/-- `swap`: the storage, the size and the allocator change places. -/
def swap (s other : BasicString) : BasicString × BasicString :=
  ({ s with storage := other.storage, size := other.size, alloc := other.alloc },
   { other with storage := s.storage, size := s.size, alloc := s.alloc })

end BasicString

/-! ### Programs over string variables -/

/-- The addresses `operator new` returns in one call: for this string's vector, for the
vector that replaces it, and for a temporary's. -/
structure Addrs where
  first : UInt64
  second : UInt64
  temp : UInt64

/-- What a string is constructed from. -/
inductive Init
  | empty
  | cStr (s : Option Bytes)
  | count (count : Nat) (c : UInt8)
  | init (s : Bytes)
  | stdString (s : Bytes)
  | substr (j pos count : Nat)
  | copy (j : Nat)
  | move (j : Nat)

inductive Assigned
  | copy (j : Nat)
  | move (j : Nat)
  | cStr (s : Option Bytes)
  | init (s : Bytes)
  | stdString (s : Bytes)

inductive Appended
  | str (j : Nat)
  | substr (j pos count : Nat)
  | cStr (s : Option Bytes)
  | chars (s : Bytes)
  | count (count : Nat) (c : UInt8)
  | init (s : Bytes)

/-- A call on the string variable `i`. -/
inductive Op
  | construct (i : Nat) (alloc : Option Nat) (init : Init)
  | assign (i : Nat) (from_ : Assigned)
  | append (i : Nat) (what : Appended)
  | pushBack (i : Nat) (c : UInt8)
  | popBack (i : Nat)
  | resize (i count : Nat)
  | reserve (i newCapacity : Nat)
  | shrinkToFit (i : Nat)
  | clear (i : Nat)
  | replace (i pos count j : Nat)
  | replaceCStr (i pos count : Nat) (s : Option Bytes)
  | erase (i pos count : Nat)
  | swap (i j : Nat)

/-- The strings of a program: the vectors and the string objects. -/
structure Strings where
  heap : VecHeap
  vars : Nat → BasicString

namespace Strings

/-- What a call leaves: the strings, or the exception it throws. -/
abbrev Result := Option (Except String Strings)

variable (n : Nat)

/-- Every variable is an empty inline string to start with. -/
def start : Strings := ⟨fun _ => none, fun _ => BasicString.blank n (some 0)⟩

/-- The outcome becomes the string's new state. -/
def put (st : Strings) (i : Nat) (r : Outcome) : Result :=
  r.map fun (h, s) => .ok ⟨h, Function.update st.vars i s⟩

def putChecked (st : Strings) (i : Nat) (r : Checked) : Result :=
  r.map fun result => result.map fun (h, s) => ⟨h, Function.update st.vars i s⟩

/-- A new object under a name: the one that had the name before is destroyed. -/
def rebind (st : Strings) (i : Nat) (r : Outcome) : Result := do
  let (h, s) ← r
  let (h, _) ← (st.vars i).release h
  some (.ok ⟨h, Function.update st.vars i s⟩)

/-- The characters of another variable, or the string's own. -/
def sourceOf (st : Strings) (i j pos len : Nat) : Option BasicString.Source := do
  if j = i then some (.own pos len)
  else some (.chars (← readMem (← (st.vars j).getData n st.heap) pos len))

def construct (st : Strings) (a : Addrs) (i : Nat) (alloc : Option Nat) : Init → Result
  | .empty => st.rebind i (BasicString.ofAlloc n st.heap alloc)
  | .cStr s => st.rebind i (BasicString.ofCStr n st.heap alloc a.first s)
  | .count count c => st.rebind i (BasicString.ofCount n st.heap alloc a.first count c)
  | .init s => st.rebind i (BasicString.ofInit n st.heap alloc a.first s)
  | .stdString s => st.rebind i (BasicString.ofStdString n st.heap alloc a.first s)
  | .substr j pos count => do
    match ← BasicString.ofSubstr n st.heap (st.vars j) pos count alloc a.first with
    | .error e => some (.error e)
    | .ok r => st.rebind i (some r)
  | .copy j => st.rebind i (BasicString.ofCopy n st.heap (st.vars j) a.first)
  | .move j => do
    let (s, other) ← (BasicString.blank n none).take n (st.vars j)
    rebind ⟨st.heap, Function.update st.vars j other⟩ i (some (st.heap, s))

def assign (st : Strings) (a : Addrs) (i : Nat) : Assigned → Result
  | .copy j =>
    if j = i then some (.ok st)
    else st.put i ((st.vars i).assignCopy n st.heap (st.vars j) a.first)
  | .move j =>
    if j = i then some (.ok st)
    else do
      let (h, s, other) ← (st.vars i).assignMove n st.heap (st.vars j)
      some (.ok ⟨h, Function.update (Function.update st.vars i s) j other⟩)
  | .cStr s => st.put i ((st.vars i).assignCStr n st.heap a.first s)
  | .init s => st.put i ((st.vars i).assignInit n st.heap a.first s)
  | .stdString s => st.put i ((st.vars i).assignStdString n st.heap a.first s)

def append (st : Strings) (a : Addrs) (i : Nat) : Appended → Result
  | .str j => do
    let src ← st.sourceOf n i j 0 (st.vars j).size
    st.put i ((st.vars i).appendCStr n st.heap a.first src)
  | .substr j pos count =>
    if (st.vars j).size < pos then some (.error "Append position out of range")
    else do
      let src ← st.sourceOf n i j pos (BasicString.partLength (st.vars j).size pos count)
      st.put i ((st.vars i).appendCStr n st.heap a.first src)
  | .cStr none => some (.ok st)
  | .cStr (some s) =>
    st.put i ((st.vars i).appendCStr n st.heap a.first (.chars (BasicString.cStr s)))
  | .chars s => st.put i ((st.vars i).appendCStr n st.heap a.first (.chars s))
  | .count count c => st.put i ((st.vars i).pushChars n st.heap a.first (List.replicate count c))
  | .init s => st.put i ((st.vars i).pushChars n st.heap a.first s)

/-- One call. -/
def step (st : Strings) (a : Addrs) : Op → Result
  | .construct i alloc init => st.construct n a i alloc init
  | .assign i from_ => st.assign n a i from_
  | .append i what => st.append n a i what
  | .pushBack i c => st.put i ((st.vars i).pushBack n st.heap a.first c)
  | .popBack i => st.put i ((st.vars i).popBack n st.heap)
  | .resize i count => st.put i ((st.vars i).resize n st.heap a.first count)
  | .reserve i cap => st.put i ((st.vars i).reserve n st.heap a.first cap)
  | .shrinkToFit i => st.put i ((st.vars i).shrinkToFit n st.heap)
  | .clear i => st.put i ((st.vars i).clear n st.heap)
  | .replace i pos count j => do
    let src ← st.sourceOf n i j 0 (st.vars j).size
    st.putChecked i ((st.vars i).replace n st.heap a.first a.second pos count src)
  | .replaceCStr i pos count s =>
    st.putChecked i ((st.vars i).replaceCStr n st.heap a.first a.second a.temp pos count s)
  | .erase i pos count => st.putChecked i ((st.vars i).erase n st.heap pos count)
  | .swap i j =>
    let (s, other) := (st.vars i).swap (st.vars j)
    some (.ok ⟨st.heap, Function.update (Function.update st.vars i s) j other⟩)

/-- The strings after a call.  A caller that catches the exception has them as they were. -/
def next (st : Strings) (a : Addrs) (op : Op) : Option Strings :=
  (st.step n a op).map fun result => match result with
    | .error _ => st
    | .ok st' => st'

def run : List (Addrs × Op) → Strings → Option Strings
  | [], st => some st
  | (a, op) :: calls, st => do run calls (← st.next n a op)

end Strings

end Priv

end IowarpCore
