/-
The scheduler in front of `Compress`: `Runtime::EstCompressionStats`,
`Runtime::BestCompressForNode` and `Runtime::DynamicSchedule` of compressor_runtime.cc.

Times and ratios are exact rationals, and the time of a ratio of zero is infinite.  The
statistics of a chunk, the predictor and `std::pow` are parameters: they only give the
numbers that the scheduler compares.  Tracing is not modelled.
-/
import IowarpCore.Compressor.Compression
import IowarpCore.Lib.FirstLeast
import Mathlib.Algebra.Order.Ring.Rat

namespace IowarpCore.Compressor

/-! ### Candidates -/

/-- The configurations of a `CompressionStats`. -/
inductive Config where
  | balanced | best | default | fast
deriving DecidableEq, Repr

/-- 0=balanced, 1=best, 2=default, 3=fast. -/
def configOf (compressPreset : Int32) : Option Config :=
  if compressPreset = 0 then some .balanced
  else if compressPreset = 1 then some .best
  else if compressPreset = 2 then some .default
  else if compressPreset = 3 then some .fast
  else none

/-- The preset of a configuration; the factory builds its default as balanced. -/
def Config.preset : Config → CompressionPreset
  | .balanced => .balanced
  | .best => .best
  | .default => .balanced
  | .fast => .fast

/-- The library of an id of the candidates. -/
def libraryOf (libId : Int32) : Option Library :=
  if 0 ≤ libId then libNames[libId.toInt.toNat]? else none

structure CompressionStats where
  compressLib : Int32
  compressPreset : Int32
  compressionRatio : ℚ
  compressTimeMs : ℚ
  decompressTimeMs : ℚ
  psnrDb : ℚ
deriving DecidableEq, Repr

/-- The fields of `wrp_cte::core::Context` that the scheduler uses as well. -/
structure ScheduleContext extends Context where
  dynamicCompress : Int32
  targetPsnr : UInt32
  psnrChance : Int32
  maxPerformance : Bool
  dataType : Int32
deriving DecidableEq, Repr

/-- The library and config ids that are tried. -/
def candidateLibConfigs (context : ScheduleContext) : List (Int32 × Int32) :=
  if context.dynamicCompress = 1 then [(context.compressLib, 2)]
  else [(10, 0), (10, 3), (4, 3), (1, 1), (9, 0)]

/-! ### Predictions -/

inductive DataType where
  | uint8 | float32
deriving DecidableEq, Repr

def DataType.typeSize : DataType → UInt64
  | .uint8 => 1
  | .float32 => 4

/-- What `DataStatisticsFactory` computes of a sample. -/
structure SampleStatistics where
  entropy : ℚ
  mad : ℚ
  secondDerivativeMean : ℚ

structure CompressionFeatures where
  libraryConfigId : ℚ
  chunkSizeBytes : ℚ
  shannonEntropy : ℚ
  mad : ℚ
  secondDerivativeMean : ℚ
  configFast : ℚ
  configBalanced : ℚ
  configBest : ℚ
  dataTypeChar : ℚ
  dataTypeFloat : ℚ

structure CompressionPrediction where
  compressionRatio : ℚ
  psnrDb : ℚ
  compressionTimeMs : ℚ

/-- The container with what it schedules by. -/
structure Scheduler (σ : Type) extends Runtime σ where
  sample : Memory → UInt64 → DataType → SampleStatistics
  /-- The Q-table, or the network where one is built in, if it is ready. -/
  predictor : Option (CompressionFeatures → CompressionPrediction)
  /-- `std::pow(1001.0, score)`. -/
  pow1001 : F32 → ℚ

variable {σ : Type}

/-- One-hot as 0 or 1. -/
def oneHot (b : Bool) : ℚ := if b then 1 else 0

def features (sample : SampleStatistics) (chunkSize : UInt64) (context : ScheduleContext)
    (libId configId : Int32) : CompressionFeatures where
  libraryConfigId := libId.toInt
  chunkSizeBytes := chunkSize.toNat
  shannonEntropy := sample.entropy
  mad := sample.mad
  secondDerivativeMean := sample.secondDerivativeMean
  configFast := oneHot (configId == 3)
  configBalanced := oneHot (configId == 0)
  configBest := oneHot (configId == 1)
  dataTypeChar := oneHot (context.dataType == 0)
  dataTypeFloat := oneHot (context.dataType == 1)

/-- The prediction falls below the acceptable PSNR; a PSNR of 0 is lossless. -/
def belowPsnr (context : ScheduleContext) (psnrDb : ℚ) : Bool :=
  decide (0 < context.targetPsnr ∧ 0 < psnrDb ∧ psnrDb < context.targetPsnr.toNat)

/-- `Runtime::EstCompressionStats`. -/
def Scheduler.estCompressionStats (rt : Scheduler σ) (chunk : Memory) (chunkSize : UInt64)
    (context : ScheduleContext) : List CompressionStats :=
  let dataType := if context.dataType = 1 then DataType.float32 else .uint8
  let sampleBytes := min chunkSize 65536
  let numElements :=
    if sampleBytes / dataType.typeSize = 0 then 1 else sampleBytes / dataType.typeSize
  let sample := rt.sample chunk numElements dataType
  (candidateLibConfigs context).filterMap fun candidate =>
    let pred : CompressionPrediction :=
      match rt.predictor with
      | some predict => predict (features sample chunkSize context candidate.1 candidate.2)
      | none => ⟨2, 0, chunkSize.toNat / 100000⟩
    if belowPsnr context pred.psnrDb then none
    else some ⟨candidate.1, candidate.2, pred.compressionRatio, pred.compressionTimeMs,
      pred.compressionTimeMs, pred.psnrDb⟩

/-! ### The choice -/

/-- The score of the best target and the bandwidth that its score stands for. -/
def Scheduler.bestTarget (rt : Scheduler σ) : F32 × ℚ :=
  rt.targetScores.foldl
    (fun best score =>
      if best.1.lt score then (score, min (max (rt.pow1001 score - 1) (10 ^ 6)) (10 ^ 10))
      else best)
    (⟨0⟩, 10 ^ 9)

/-- `Runtime::EstWorkflowCompressTime`. -/
def estWorkflowCompressTime (chunkSize : UInt64) (tierBw : ℚ) (stats : CompressionStats)
    (context : ScheduleContext) : WithTop ℚ :=
  if stats.compressionRatio = 0 then ⊤
  else
    let transferTimeMs := chunkSize.toNat / stats.compressionRatio / tierBw * 1000
    if stats.psnrDb = 0 then
      ((stats.compressTimeMs + stats.decompressTimeMs + transferTimeMs : ℚ) : WithTop ℚ)
    else
      let psnrCheckProb : ℚ := context.psnrChance.toInt / 100
      ((stats.compressTimeMs + (1 + psnrCheckProb) * stats.decompressTimeMs +
        transferTimeMs : ℚ) : WithTop ℚ)

/-- The largest double. -/
def doubleMax : ℚ := (2 ^ 53 - 1) * 2 ^ 971

/-- The tuple that `BestCompressForNode` returns. -/
structure Choice where
  bestTier : Int32
  bestLib : Int32
  bestPreset : Int32
  bestTime : WithTop ℚ
  bestTierScore : F32

/-- No candidate yet. -/
def Choice.initial (tierScore : F32) : Choice := ⟨0, 0, 2, (doubleMax : WithTop ℚ), tierScore⟩

def Choice.take (choice : Choice) (stat : CompressionStats) (estTime : WithTop ℚ) : Choice :=
  { choice with bestTier := 0, bestLib := stat.compressLib, bestPreset := stat.compressPreset,
                bestTime := estTime }

/-- The time of a candidate over the bandwidth of the best target. -/
def Scheduler.estTime (rt : Scheduler σ) (chunkSize : UInt64) (context : ScheduleContext)
    (stat : CompressionStats) : WithTop ℚ :=
  estWorkflowCompressTime chunkSize rt.bestTarget.2 stat context

/-- `Runtime::BestCompressRatio`: the choice beside the ratio to beat. -/
def Scheduler.bestCompressRatio (rt : Scheduler σ) (chunkSize : UInt64)
    (stats : List CompressionStats) (context : ScheduleContext) : Choice :=
  (stats.foldl
    (fun best stat =>
      if stat.compressionRatio > best.2 then
        (best.1.take stat (rt.estTime chunkSize context stat), stat.compressionRatio)
      else best)
    (Choice.initial rt.bestTarget.1, 1)).1

/-- `Runtime::BestCompressTime`. -/
def Scheduler.bestCompressTime (rt : Scheduler σ) (chunkSize : UInt64)
    (stats : List CompressionStats) (context : ScheduleContext) : Choice :=
  stats.foldl
    (fun best stat =>
      if rt.estTime chunkSize context stat < best.bestTime then
        best.take stat (rt.estTime chunkSize context stat)
      else best)
    (Choice.initial rt.bestTarget.1)

/-- `Runtime::BestCompressForNode`. -/
def Scheduler.bestCompressForNode (rt : Scheduler σ) (context : ScheduleContext)
    (chunkSize : UInt64) (stats : List CompressionStats) : Choice :=
  if context.maxPerformance then rt.bestCompressTime chunkSize stats context
  else rt.bestCompressRatio chunkSize stats context

/-! ### The task -/

structure DynamicScheduleTask where
  tagId : TagId
  blobName : Bytes
  offset : UInt64
  size : UInt64
  blobData : Option Memory
  score : F32
  context : ScheduleContext
  flags : UInt32
  tierScore : F32
  returnCode : UInt32

/-- Gives up without compression. -/
def DynamicScheduleTask.disable (t : DynamicScheduleTask) (returnCode : UInt32) :
    DynamicScheduleTask :=
  { t with context := { t.context with compressLib := 0, dynamicCompress := 0 },
           returnCode := returnCode }

def ScheduleContext.choose (context : ScheduleContext) (choice : Choice) : ScheduleContext :=
  { context with compressLib := choice.bestLib, compressPreset := choice.bestPreset }

/-- What `AsyncCompress` sends. -/
def DynamicScheduleTask.compressTask (t : DynamicScheduleTask) (context : ScheduleContext) :
    CompressTask :=
  { tagId := t.tagId, blobName := t.blobName, offset := t.offset, size := t.size,
    blobData := t.blobData, score := t.score, context := context.toContext, flags := t.flags,
    tierScore := ⟨0⟩, returnCode := 0 }

/-- `Runtime::DynamicSchedule`. -/
def Scheduler.dynamicSchedule (rt : Scheduler σ) (room : Room) (s : σ)
    (t : DynamicScheduleTask) : σ × DynamicScheduleTask :=
  match t.blobData with
  | none => (s, t.disable 1)
  | some chunk =>
    if t.size = 0 then (s, t.disable 1)
    else
      let stats := rt.estCompressionStats chunk t.size t.context
      if stats.isEmpty then (s, t.disable 0)
      else
        let context := t.context.choose (rt.bestCompressForNode t.context t.size stats)
        let compressed := rt.compress room s (t.compressTask context)
        (compressed.1,
          { t with context := { context with toContext := compressed.2.context },
                   tierScore := compressed.2.tierScore,
                   returnCode := compressed.2.returnCode })

/-! ### What the factory is handed -/

/-- The library and preset that `Compress` asks the factory for, if it compresses. -/
def Context.handed (context : Context) : Option (Library × CompressionPreset) :=
  if context.compressLib ≤ 0 then none
  else some (libraryName context.compressLib, preset context.compressPreset)

/-- What the factory is handed for a list of candidates. -/
def Scheduler.handed (rt : Scheduler σ) (chunkSize : UInt64) (context : ScheduleContext)
    (stats : List CompressionStats) : Option (Library × CompressionPreset) :=
  if stats.isEmpty then none
  else (context.choose (rt.bestCompressForNode context chunkSize stats)).toContext.handed

end IowarpCore.Compressor
