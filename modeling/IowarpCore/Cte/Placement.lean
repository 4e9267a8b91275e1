/-
Data placement: the three engines of `core_dpe.cc`.

Each takes the targets with room for all of the data, puts those whose score does not
exceed the blob's in front of the others, and orders both groups: at random, rotated by
a counter that every call advances, or by performance.  `std::sort` may order equal
elements as it likes, so the sort starts from a shuffle.
-/
import IowarpCore.Cte.State

namespace IowarpCore
namespace Cte

def kLatencyThreshold : UInt64 := 32768

/-- The targets with room, split into those at or below the blob's score and the rest. -/
def partitionTargets (targets : List TargetInfo) (blobScore : F32) (dataSize : UInt64) :
    List TargetInfo × List TargetInfo :=
  (targets.filter fun t => t.remainingSpace ≥ dataSize).partition
    fun t => t.targetScore.le blobScore

/-- `std::rotate` by the counter. -/
def rotateBy (counter : UInt32) (targets : List TargetInfo) : List TargetInfo :=
  targets.rotateLeft (counter.toNat % targets.length)

/-- `perf_comparator`: bandwidth for large data, average latency for small. -/
def perfBefore (dataSize : UInt64) (a b : TargetInfo) : Bool :=
  if dataSize ≥ kLatencyThreshold then
    b.perfMetrics.writeBandwidthMbps.lt a.perfMetrics.writeBandwidthMbps
  else
    ((a.perfMetrics.readLatencyUs.add a.perfMetrics.writeLatencyUs).half).lt
      (b.perfMetrics.readLatencyUs.add b.perfMetrics.writeLatencyUs).half

/-- `std::sort` with a strict order. -/
def sortTargets (before : TargetInfo → TargetInfo → Bool) (targets : List TargetInfo) :
    TaskResume (List TargetInfo) := do
  let shuffled ← Co.shuffle targets
  return shuffled.mergeSort fun a b => !before b a

/-- `RandomDpe::SelectTargets`. -/
def selectRandom (targets : List TargetInfo) (blobScore : F32) (dataSize : UInt64) :
    TaskResume (List TargetInfo) := do
  let (low, high) := partitionTargets targets blobScore dataSize
  let low ← Co.shuffle low
  let high ← Co.shuffle high
  return low ++ high

/-- `RoundRobinDpe::SelectTargets`. -/
def selectRoundRobin (targets : List TargetInfo) (blobScore : F32) (dataSize : UInt64) :
    TaskResume (List TargetInfo) :=
  if targets.isEmpty then return []
  else do
    let (low, high) := partitionTargets targets blobScore dataSize
    let c ← TaskResume.readContainer
    TaskResume.modifyContainer fun c => { c with roundRobinCounter := c.roundRobinCounter + 1 }
    return rotateBy c.roundRobinCounter low ++ rotateBy c.roundRobinCounter high

/-- `MaxBwDpe::SelectTargets`.  The fallback group is sorted the other way round. -/
def selectMaxBw (targets : List TargetInfo) (blobScore : F32) (dataSize : UInt64) :
    TaskResume (List TargetInfo) := do
  let (low, high) := partitionTargets targets blobScore dataSize
  let low ← sortTargets (perfBefore dataSize) low
  let high ← sortTargets (fun a b => perfBefore dataSize b a) high
  return low ++ high

/-- `DpeFactory::CreateDpe` and the engine's `SelectTargets`. -/
def selectTargets (cfg : Config) (targets : List TargetInfo) (blobScore : F32)
    (dataSize : UInt64) : TaskResume (List TargetInfo) :=
  match cfg.dpeType with
  | .random => selectRandom targets blobScore dataSize
  | .roundRobin => selectRoundRobin targets blobScore dataSize
  | .maxBw => selectMaxBw targets blobScore dataSize

end Cte
end IowarpCore
