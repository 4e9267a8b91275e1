/-
The frecency engine of the Rust wrapper: popularity scores that decay with time.

Up to `HOT_SET_SIZE` blobs have a slot in parallel arrays (the hot set), the others an
entry in a map (the cold set).  Scores are exact rationals.  The tick and the counts go
up by one a call and are natural numbers; the cast of an age to `i32` is kept, since
`powi` takes one.  The `Vec` of free slots is popped and pushed at its end, which is the
head of the list here.
-/
import IowarpCore.Lib.AMap
import Mathlib.Algebra.Field.Rat
import Mathlib.Data.List.FinRange

namespace IowarpCore

namespace Frecency

def HOT_SET_SIZE : Nat := 512

def DECAY_FACTOR : ℚ := 999999 / 1000000

def DEFAULT_SCORE : ℚ := 0

/-- What the address of an aligned AVX2 load or store is a multiple of. -/
def AVX2_ALIGNMENT : Nat := 32

/-- `DECAY_FACTOR.powi(missed_ticks as i32)` -/
def powi (missedTicks : Nat) : ℚ := DECAY_FACTOR ^ Int.bmod missedTicks (2 ^ 32)

abbrev Slot := Fin HOT_SET_SIZE

/-! ### The hot set -/

structure ColdEntry where
  score : ℚ
  count : Nat
  lastUpdate : Nat

def ColdEntry.new : ColdEntry := ⟨DEFAULT_SCORE, 0, 0⟩

structure HotSet where
  scores : Slot → ℚ
  /-- The address of the scores, for life: the `Vec` never grows.  The allocator aligns
  it for `f64`. -/
  scoresPtr : Nat
  counts : Slot → Nat
  lastUpdates : Slot → Nat
  keys : Slot → UInt64
  keyToSlot : AMap UInt64 Slot
  freeSlots : List Slot
  currentTick : Nat

namespace HotSet

def new (scoresPtr : Nat) : HotSet where
  scores _ := 0
  scoresPtr := scoresPtr
  counts _ := 0
  lastUpdates _ := 0
  keys _ := 0
  keyToSlot := AMap.empty
  freeSlots := List.finRange HOT_SET_SIZE
  currentTick := 0

def find (hot : HotSet) (blobId : UInt64) : Option Slot := hot.keyToSlot.find? blobId

/-- An access to a blob that has a slot; also the new score. -/
def recordAccess (hot : HotSet) (slot : Slot) : HotSet × ℚ :=
  let missedTicks := hot.currentTick - hot.lastUpdates slot
  let decayed := if 0 < missedTicks then hot.scores slot * powi missedTicks else hot.scores slot
  ({ hot with
      scores := Function.update hot.scores slot (decayed + 1)
      counts := Function.update hot.counts slot (hot.counts slot + 1)
      lastUpdates := Function.update hot.lastUpdates slot hot.currentTick }, decayed + 1)

def insert (hot : HotSet) (blobId : UInt64) : HotSet × Option Slot :=
  match hot.find blobId with
  | some slot => (hot, some slot)
  | none =>
    match hot.freeSlots with
    | [] => (hot, none)
    | slot :: rest =>
      ({ hot with
          scores := Function.update hot.scores slot (DEFAULT_SCORE + 1)
          counts := Function.update hot.counts slot 1
          lastUpdates := Function.update hot.lastUpdates slot hot.currentTick
          keys := Function.update hot.keys slot blobId
          keyToSlot := hot.keyToSlot.insertOrAssign blobId slot
          freeSlots := rest }, some slot)

def remove (hot : HotSet) (slot : Slot) : HotSet :=
  { hot with
    scores := Function.update hot.scores slot 0
    counts := Function.update hot.counts slot 0
    lastUpdates := Function.update hot.lastUpdates slot 0
    keys := Function.update hot.keys slot 0
    keyToSlot := hot.keyToSlot.erase (hot.keys slot)
    freeSlots := slot :: hot.freeSlots }

def getScore (hot : HotSet) (slot : Slot) : ℚ := hot.scores slot

def getCount (hot : HotSet) (slot : Slot) : Nat := hot.counts slot

def incrementTick (hot : HotSet) : HotSet := { hot with currentTick := hot.currentTick + 1 }

def activeCount (hot : HotSet) : Nat := HOT_SET_SIZE - hot.freeSlots.length

/-- Every slot whose key says that it is active. -/
def batchDecayScalar (hot : HotSet) : HotSet :=
  { hot with scores := fun slot =>
      if hot.keys slot ≠ 0 then hot.scores slot * DECAY_FACTOR else hot.scores slot }

/-- `_mm256_load_pd`, `_mm256_mul_pd` and `_mm256_store_pd` on the four scores from
`offset` on; without the alignment the load faults. -/
def decayLanes (scoresPtr offset : Nat) (scores : Slot → ℚ) : Option (Slot → ℚ) :=
  if (scoresPtr + offset * 8) % AVX2_ALIGNMENT = 0 then
    some fun slot =>
      if offset ≤ slot ∧ slot < offset + 4 then scores slot * DECAY_FACTOR else scores slot
  else none

/-- Four slots at a time, whatever their keys, and one at a time what is left. -/
def batchDecaySimd (hot : HotSet) : Option HotSet := do
  let chunks := HOT_SET_SIZE / 4
  let scores ← (List.range chunks).foldlM
    (fun scores chunk => decayLanes hot.scoresPtr (chunk * 4) scores) hot.scores
  some { hot with scores := fun slot =>
      if chunks * 4 ≤ slot then scores slot * DECAY_FACTOR else scores slot }

end HotSet

/-! ### The engine -/

structure FrecencyEngine where
  hot : HotSet
  cold : AMap UInt64 ColdEntry
  tick : Nat

namespace FrecencyEngine

def new (scoresPtr : Nat) : FrecencyEngine := ⟨HotSet.new scoresPtr, AMap.empty, 0⟩

/-- An access to a blob; also the new score as it is returned. -/
def recordAccess (e : FrecencyEngine) (blobId : UInt64) : FrecencyEngine × ℚ :=
  match e.hot.find blobId with
  | some slot =>
    let (hot, score) := e.hot.recordAccess slot
    ({ e with hot := hot }, score)
  | none =>
    match e.cold.find? blobId with
    | none =>
      match e.hot.insert blobId with
      | (hot, some slot) => ({ e with hot := hot }, hot.getScore slot)
      -- the hot set is full; the entry is as good as never accessed
      | (_, none) => ({ e with cold := e.cold.insertOrAssign blobId ColdEntry.new }, 0)
    | some entry =>
      let missedTicks := e.tick - entry.lastUpdate
      let decayed := if 0 < missedTicks then entry.score * powi missedTicks else entry.score
      let score := decayed + 1
      let count := entry.count + 1
      if 3 < count then
        match e.hot.insert blobId with
        | (hot, some slot) =>
          ({ e with
              hot := { hot with
                scores := Function.update hot.scores slot score
                counts := Function.update hot.counts slot count
                lastUpdates := Function.update hot.lastUpdates slot e.tick }
              cold := e.cold.erase blobId }, score)
        | (_, none) =>
          ({ e with cold := (e.cold.erase blobId).insertOrAssign blobId ⟨score, count, e.tick⟩ }, score)
      else ({ e with cold := e.cold.insertOrAssign blobId ⟨score, count, e.tick⟩ }, score)

/-- All entries decay; also the pairs it returns, in the map's order.  `avx2` is whether
the machine has the instructions; `none` is the fault of its vector path. -/
def batchDecay (avx2 : Bool) (e : FrecencyEngine) :
    Option (FrecencyEngine × List (UInt64 × ℚ)) := do
  let hot := e.hot.incrementTick
  let hot ← if avx2 then hot.batchDecaySimd else some hot.batchDecayScalar
  let cold := e.cold.mapVal fun _ entry => { entry with score := entry.score * DECAY_FACTOR }
  some (⟨hot, cold, e.tick + 1⟩,
    hot.keyToSlot.entries.map fun (blobId, slot) => (blobId, hot.scores slot))

def getScore (e : FrecencyEngine) (blobId : UInt64) : Option ℚ :=
  match e.hot.find blobId with
  | some slot => some (e.hot.getScore slot)
  | none => (e.cold.find? blobId).map ColdEntry.score

def getCount (e : FrecencyEngine) (blobId : UInt64) : Option Nat :=
  match e.hot.find blobId with
  | some slot => some (e.hot.getCount slot)
  | none => (e.cold.find? blobId).map ColdEntry.count

def remove (e : FrecencyEngine) (blobId : UInt64) : FrecencyEngine :=
  match e.hot.find blobId with
  | some slot => { e with hot := e.hot.remove slot }
  | none => { e with cold := e.cold.erase blobId }

def len (e : FrecencyEngine) : Nat := e.hot.activeCount + e.cold.entries.length

/-! ### Runs -/

/-- A call that changes the engine. -/
inductive Event
  | recordAccess (blobId : UInt64)
  | batchDecay
  | remove (blobId : UInt64)
  deriving DecidableEq

def step (avx2 : Bool) (e : FrecencyEngine) : Event → Option FrecencyEngine
  | .recordAccess blobId => some (e.recordAccess blobId).1
  | .batchDecay => (e.batchDecay avx2).map Prod.fst
  | .remove blobId => some (e.remove blobId)

def run (avx2 : Bool) (events : List Event) (e : FrecencyEngine) : Option FrecencyEngine :=
  events.foldlM (step avx2) e

end FrecencyEngine

end Frecency

end IowarpCore
