/-
`priv::unordered_map_ll`: a map as buckets of entries, unordered_map_ll.h.

The hash function is any function and `KeyEqual` is equality.  A `T *` is what it points to,
`none` for a null pointer.  The bucket vector never changes its length, and `size()` sums in
`Nat`: the entries fit in memory.
-/
import Mathlib.Data.List.Basic

namespace IowarpCore

namespace Priv

structure UnorderedMapLl (K T : Type) where
  hashFn : K → UInt64
  buckets : List (List (K × T))
  nonempty : 0 < buckets.length

namespace UnorderedMapLl

variable {K T : Type}

/-- The constructor. -/
def new (maxConcurrency : Nat) (hash : K → UInt64) (h : 0 < maxConcurrency) :
    UnorderedMapLl K T where
  hashFn := hash
  buckets := List.replicate maxConcurrency []
  nonempty := by rwa [List.length_replicate]

def getBucketIndex (m : UnorderedMapLl K T) (key : K) : Nat :=
  (m.hashFn key).toNat % m.buckets.length

theorem getBucketIndex_lt (m : UnorderedMapLl K T) (key : K) :
    m.getBucketIndex key < m.buckets.length := Nat.mod_lt _ m.nonempty

/-- `buckets_[bucket_idx].entries` -/
def bucket (m : UnorderedMapLl K T) (key : K) : List (K × T) :=
  m.buckets.get ⟨m.getBucketIndex key, m.getBucketIndex_lt key⟩

/-- The bucket of a key after a change. -/
def setBucket (m : UnorderedMapLl K T) (key : K) (entries : List (K × T)) :
    UnorderedMapLl K T where
  hashFn := m.hashFn
  buckets := m.buckets.set (m.getBucketIndex key) entries
  nonempty := by
    rw [List.length_set]
    exact m.nonempty

/-- `it->second`, for the iterator to a position. -/
def second (entries : List (K × T)) (it : Nat) : Option T := entries[it]?.map Prod.snd

/-- An assignment through `it->second`. -/
def assignSecond (entries : List (K × T)) (it : Nat) (f : T → T) : List (K × T) :=
  entries.modify it fun e => (e.1, f e.2)

section Lookup

variable [DecidableEq K]

/-- `find_entry_in_bucket`, by position; `none` is `end()`. -/
def findEntryInBucket (entries : List (K × T)) (key : K) : Option Nat :=
  entries.findIdx? fun item => item.1 = key

def insertOrAssign (m : UnorderedMapLl K T) (key : K) (value : T) :
    (Bool × Option T) × UnorderedMapLl K T :=
  let entries := m.bucket key
  match findEntryInBucket entries key with
  | some it =>
    let entries := assignSecond entries it fun _ => value
    ((false, second entries it), m.setBucket key entries)
  | none => ((true, some value), m.setBucket key (entries ++ [(key, value)]))

def insert (m : UnorderedMapLl K T) (key : K) (value : T) :
    (Bool × Option T) × UnorderedMapLl K T :=
  let entries := m.bucket key
  match findEntryInBucket entries key with
  | some it => ((false, second entries it), m)
  | none => ((true, some value), m.setBucket key (entries ++ [(key, value)]))

/-- `emplace`, with the pair its arguments construct. -/
def emplace (m : UnorderedMapLl K T) (temp : K × T) : (Bool × Option T) × UnorderedMapLl K T :=
  m.insert temp.1 temp.2

/-- `operator[]`, and what the caller then does to the value it refers to; the result is the
value before that. -/
def subscript [Inhabited T] (m : UnorderedMapLl K T) (key : K) (use : T → T) :
    Option T × UnorderedMapLl K T :=
  let entries := m.bucket key
  match findEntryInBucket entries key with
  | some it => (second entries it, m.setBucket key (assignSecond entries it use))
  | none =>
    let entries := entries ++ [(key, default)]
    (some default, m.setBucket key (assignSecond entries (entries.length - 1) use))

/-- `at`; the error is the text of `std::out_of_range`. -/
def at? (m : UnorderedMapLl K T) (key : K) : Except String (Option T) :=
  let entries := m.bucket key
  match findEntryInBucket entries key with
  | some it => .ok (second entries it)
  | none => .error "unordered_map_ll::at: key not found"

def find (m : UnorderedMapLl K T) (key : K) : Option T :=
  let entries := m.bucket key
  match findEntryInBucket entries key with
  | some it => second entries it
  | none => none

def contains (m : UnorderedMapLl K T) (key : K) : Bool := (m.find key).isSome

def count (m : UnorderedMapLl K T) (key : K) : Nat := if m.contains key then 1 else 0

def erase (m : UnorderedMapLl K T) (key : K) : Nat × UnorderedMapLl K T :=
  let entries := m.bucket key
  match findEntryInBucket entries key with
  | some it => (1, m.setBucket key (entries.eraseIdx it))
  | none => (0, m)

end Lookup

def clear (m : UnorderedMapLl K T) : UnorderedMapLl K T where
  hashFn := m.hashFn
  buckets := m.buckets.map fun _ => []
  nonempty := by
    rw [List.length_map]
    exact m.nonempty

def size (m : UnorderedMapLl K T) : Nat :=
  m.buckets.foldl (fun total entries => total + entries.length) 0

def empty (m : UnorderedMapLl K T) : Bool := m.size == 0

def bucketCount (m : UnorderedMapLl K T) : Nat := m.buckets.length

/-- `for_each` on a constant map, for a function that carries a state along. -/
def forEach {σ : Type} (m : UnorderedMapLl K T) (fn : σ → K → T → σ) (s : σ) : σ :=
  m.buckets.foldl (fun s entries => entries.foldl (fun s e => fn s e.1 e.2) s) s

/-- `for_each` on a map whose values the function changes. -/
def forEachMut (m : UnorderedMapLl K T) (fn : K → T → T) : UnorderedMapLl K T where
  hashFn := m.hashFn
  buckets := m.buckets.map fun entries => entries.map fun e => (e.1, fn e.1 e.2)
  nonempty := by
    rw [List.length_map]
    exact m.nonempty

/-! ### Programs -/

inductive Op (K T : Type) where
  | insert (key : K) (value : T)
  | insertOrAssign (key : K) (value : T)
  | emplace (temp : K × T)
  | subscript (key : K) (use : T → T)
  | erase (key : K)
  | clear
  | forEachMut (fn : K → T → T)

/-- What a call returns. -/
inductive Out (T : Type) where
  | inserted (success : Bool) (value : Option T)
  | ref (value : Option T)
  | erased (n : Nat)
  | done
deriving DecidableEq

section Programs

variable [DecidableEq K] [Inhabited T]

def step (m : UnorderedMapLl K T) : Op K T → Out T × UnorderedMapLl K T
  | .insert key value =>
    let ((success, value), m) := m.insert key value
    (.inserted success value, m)
  | .insertOrAssign key value =>
    let ((success, value), m) := m.insertOrAssign key value
    (.inserted success value, m)
  | .emplace temp =>
    let ((success, value), m) := m.emplace temp
    (.inserted success value, m)
  | .subscript key use =>
    let (value, m) := m.subscript key use
    (.ref value, m)
  | .erase key =>
    let (n, m) := m.erase key
    (.erased n, m)
  | .clear => (.done, m.clear)
  | .forEachMut fn => (.done, m.forEachMut fn)

/-- A program, with what its calls return. -/
def run (m : UnorderedMapLl K T) : List (Op K T) → List (Out T) × UnorderedMapLl K T
  | [] => ([], m)
  | op :: ops =>
    let (out, m) := m.step op
    let (outs, m) := m.run ops
    (out :: outs, m)

end Programs

end UnorderedMapLl

end Priv

end IowarpCore
