/-
The scheduler and the executor agree on less than what the candidates mean.

The scan settles on the first best candidate.  Its library and config ids go into the
context as they are, and the executor reads them by tables of its own: a library id that
is not positive means no compression, an id past the table means zstd, and a preset of 1 is
fast and of 3 is best where the config ids have best and fast.  So what was scored best
runs exactly if reading the ids of the first best candidate that way names a best candidate
again.
-/
import IowarpCore.Compressor.Schedule
import IowarpCore.Proofs.Compression

namespace IowarpCore.Compressor

variable {σ : Type} {rt : Scheduler σ} {chunkSize : UInt64} {context : ScheduleContext}
  {stats : List CompressionStats} {s f : CompressionStats}

/-! ### What is to run -/

/-- A candidate of least workflow time, or one of the greatest ratio above 1. -/
def Scheduler.Best (rt : Scheduler σ) (chunkSize : UInt64) (context : ScheduleContext)
    (stats : List CompressionStats) (s : CompressionStats) : Prop :=
  s ∈ stats ∧
    if context.maxPerformance then
      ∀ s' ∈ stats, rt.estTime chunkSize context s ≤ rt.estTime chunkSize context s'
    else 1 < s.compressionRatio ∧ ∀ s' ∈ stats, s'.compressionRatio ≤ s.compressionRatio

/-- The first best candidate, with a time below the largest double. -/
def Scheduler.FirstBest (rt : Scheduler σ) (chunkSize : UInt64) (context : ScheduleContext)
    (stats : List CompressionStats) (f : CompressionStats) : Prop :=
  if context.maxPerformance then
    FirstLeast (rt.estTime chunkSize context) (doubleMax : WithTop ℚ) stats f
  else
    FirstLeast (fun s => OrderDual.toDual s.compressionRatio) (OrderDual.toDual 1) stats f

/-- The factory is handed the library and configuration of a best candidate, and nothing
exactly if there is none. -/
def Scheduler.RunsBest (rt : Scheduler σ) (chunkSize : UInt64) (context : ScheduleContext)
    (stats : List CompressionStats) : Prop :=
  (rt.handed chunkSize context stats = none ↔ ∀ s, ¬ rt.Best chunkSize context stats s) ∧
    ∀ library p, rt.handed chunkSize context stats = some (library, p) →
      ∃ s, rt.Best chunkSize context stats s ∧ libraryOf s.compressLib = some library ∧
        (configOf s.compressPreset).map Config.preset = some p

/-! ### The factory is asked for nothing else -/

/-- **What is handed decides.**  Another factory that answers alike for what is handed
makes no difference, so where nothing is handed no codec is used. -/
theorem compress_handed (rt : Runtime σ) (factory : CompressionFactory) (room : Room) (st : σ)
    (t : CompressTask)
    (hsame : ∀ c, t.context.handed = some c →
      factory.getPreset c.1 c.2 = rt.factory.getPreset c.1 c.2) :
    { rt with factory := factory }.compress room st t = rt.compress room st t := by
  by_cases hlib : t.context.compressLib ≤ 0
  · simp only [Runtime.compress, if_pos hlib]
    rfl
  · have hget := hsame _ (if_neg hlib)
    simp only [Runtime.compress, if_neg hlib, hget]
    rfl

/-- The same of a whole `DynamicSchedule`. -/
theorem dynamicSchedule_handed (rt : Scheduler σ) (factory : CompressionFactory) (room : Room)
    (st : σ) (t : DynamicScheduleTask)
    (hsame : ∀ chunk c, t.blobData = some chunk →
      rt.handed t.size t.context (rt.estCompressionStats chunk t.size t.context) = some c →
        factory.getPreset c.1 c.2 = rt.factory.getPreset c.1 c.2) :
    { rt with factory := factory }.dynamicSchedule room st t = rt.dynamicSchedule room st t := by
  have hstats : { rt with factory := factory }.estCompressionStats = rt.estCompressionStats := rfl
  have hbest : { rt with factory := factory }.bestCompressForNode = rt.bestCompressForNode := rfl
  cases hdata : t.blobData with
  | none => simp only [Scheduler.dynamicSchedule, hdata]
  | some chunk =>
    simp only [Scheduler.dynamicSchedule, hdata, hstats, hbest]
    by_cases hempty : (rt.estCompressionStats chunk t.size t.context).isEmpty = true
    · simp only [if_pos hempty]
    · have hcompress := compress_handed rt.toRuntime factory room st
        (t.compressTask (t.context.choose (rt.bestCompressForNode t.context t.size
          (rt.estCompressionStats chunk t.size t.context))))
        (fun c hc => hsame chunk c hdata ((if_neg hempty).trans hc))
      simp only [hcompress]

/-! ### The scan -/

/-- The choice of what a scan found, with the time that is then to beat. -/
def choiceOf (tierScore : F32) (found : Option CompressionStats) (time : WithTop ℚ) : Choice :=
  match found with
  | none => { Choice.initial tierScore with bestTime := time }
  | some s => (Choice.initial tierScore).take s time

theorem bestCompressTime_eq (rt : Scheduler σ) (chunkSize : UInt64)
    (stats : List CompressionStats) (context : ScheduleContext) :
    rt.bestCompressTime chunkSize stats context =
      choiceOf rt.bestTarget.1
        (firstLeast (rt.estTime chunkSize context) (doubleMax : WithTop ℚ) stats).1
        (firstLeast (rt.estTime chunkSize context) (doubleMax : WithTop ℚ) stats).2 := by
  refine foldl_firstLeast (fun best => choiceOf rt.bestTarget.1 best.1 best.2) _
    (fun best s => ?_) stats
  obtain ⟨found, time⟩ := best
  have hbest : (choiceOf rt.bestTarget.1 found time).bestTime = time := by cases found <;> rfl
  simp only [hbest]
  split
  · cases found <;> rfl
  · rfl

theorem bestCompressRatio_eq (rt : Scheduler σ) (chunkSize : UInt64)
    (stats : List CompressionStats) (context : ScheduleContext) :
    rt.bestCompressRatio chunkSize stats context =
      (fun found : Option CompressionStats => choiceOf rt.bestTarget.1 found
        (found.elim (doubleMax : WithTop ℚ) (rt.estTime chunkSize context)))
      (firstLeast (fun s => OrderDual.toDual s.compressionRatio) (OrderDual.toDual 1) stats).1 := by
  refine congrArg Prod.fst (foldl_firstLeast
    (fun best : Option CompressionStats × ℚᵒᵈ =>
      (choiceOf rt.bestTarget.1 best.1
        (best.1.elim (doubleMax : WithTop ℚ) (rt.estTime chunkSize context)),
        OrderDual.ofDual best.2)) _ (fun best s => ?_) stats)
  obtain ⟨found, ratio⟩ := best
  by_cases hbetter : s.compressionRatio > OrderDual.ofDual ratio
  · rw [if_pos hbetter, if_pos (OrderDual.toDual_lt.mpr hbetter)]
    cases found <;> rfl
  · rw [if_neg hbetter, if_neg (fun h => hbetter (OrderDual.toDual_lt.mp h))]

/-- The choice names the first best candidate, and no library if there is none. -/
theorem bestCompressForNode_spec (rt : Scheduler σ) (chunkSize : UInt64)
    (context : ScheduleContext) (stats : List CompressionStats) :
    ((rt.bestCompressForNode context chunkSize stats).bestLib = 0 ∧
        ∀ f, ¬ rt.FirstBest chunkSize context stats f) ∨
      ∃ f, rt.FirstBest chunkSize context stats f ∧
        (rt.bestCompressForNode context chunkSize stats).bestLib = f.compressLib ∧
        (rt.bestCompressForNode context chunkSize stats).bestPreset = f.compressPreset := by
  by_cases hobjective : context.maxPerformance = true
  · simp only [Scheduler.bestCompressForNode, Scheduler.FirstBest, if_pos hobjective,
      bestCompressTime_eq]
    obtain ⟨hnone, hall⟩ | ⟨f, hsome, hleast⟩ :=
      firstLeast_spec (rt.estTime chunkSize context) (doubleMax : WithTop ℚ) stats
    · rw [hnone]
      exact .inl ⟨rfl, fun f hf => absurd hf.below (not_lt.mpr (hall f hf.mem))⟩
    · rw [hsome]
      exact .inr ⟨f, hleast, rfl, rfl⟩
  · simp only [Scheduler.bestCompressForNode, Scheduler.FirstBest, if_neg hobjective,
      bestCompressRatio_eq]
    obtain ⟨hnone, hall⟩ | ⟨f, hsome, hleast⟩ := firstLeast_spec
      (fun s : CompressionStats => OrderDual.toDual s.compressionRatio) (OrderDual.toDual 1) stats
    · rw [hnone]
      exact .inl ⟨rfl, fun f hf => absurd hf.below (not_lt.mpr (hall f hf.mem))⟩
    · rw [hsome]
      exact .inr ⟨f, hleast, rfl, rfl⟩

theorem Scheduler.FirstBest.unique {f' : CompressionStats}
    (hf : rt.FirstBest chunkSize context stats f) (hf' : rt.FirstBest chunkSize context stats f') :
    f = f' := by
  unfold Scheduler.FirstBest at hf hf'
  split at hf <;> exact FirstLeast.unique hf (by simpa [*] using hf')

theorem Scheduler.FirstBest.best (hf : rt.FirstBest chunkSize context stats f) :
    rt.Best chunkSize context stats f := by
  by_cases hobjective : context.maxPerformance = true
  · rw [Scheduler.FirstBest, if_pos hobjective] at hf
    rw [Scheduler.Best, if_pos hobjective]
    exact ⟨hf.mem, fun s hs => hf.le hs⟩
  · rw [Scheduler.FirstBest, if_neg hobjective] at hf
    rw [Scheduler.Best, if_neg hobjective]
    exact ⟨hf.mem, OrderDual.toDual_lt_toDual.mp hf.below,
      fun s hs => OrderDual.toDual_le_toDual.mp (hf.le hs)⟩

/-! ### Two readings of the ids -/

/-- The executor reads a preset `p` as the configuration of the config id `q`. -/
def ReadsAs (p q : Int32) : Prop :=
  if p = 1 then q = 3 else if p = 3 then q = 1 else q = 0 ∨ q = 2

/-- The configuration of a config id, as a table of presets. -/
theorem configOf_preset (q : Int32) (p : CompressionPreset) :
    (configOf q).map Config.preset = some p ↔
      match p with
      | .fast => q = 3
      | .best => q = 1
      | .balanced => q = 0 ∨ q = 2 := by
  unfold configOf
  split_ifs with h0 h1 h2 h3 <;> cases p <;> simp_all [Config.preset]

theorem configOf_eq_preset (p q : Int32) :
    (configOf q).map Config.preset = some (preset p) ↔ ReadsAs p q := by
  rw [configOf_preset]
  unfold preset ReadsAs
  split_ifs <;> rfl

/-- A library id names one library. -/
theorem libraryOf_inj {q q' : Int32} {library : Library} (hq : libraryOf q = some library)
    (hq' : libraryOf q' = some library) : q = q' := by
  unfold libraryOf at hq hq'
  split at hq
  · split at hq'
    · have hlength : q.toInt.toNat < libNames.length := (List.getElem?_eq_some_iff.mp hq).1
      have hindex := (List.getElem?_inj hlength (by decide)).mp (hq.trans hq'.symm)
      refine Int32.toInt_inj.mp ?_
      simp only [Int32.le_iff_toInt_le, Int32.toInt_zero] at *
      omega
    · cases hq'
  · cases hq

theorem libraryOf_libraryName {lib : Int32} (hlib : 0 < lib) :
    libraryOf (if lib ≤ 10 then lib else 10) = some (libraryName lib) := by
  have hle : 0 ≤ lib := Int32.le_of_lt hlib
  unfold libraryOf libraryName
  by_cases hten : lib ≤ 10
  · have hlength : lib.toInt.toNat < libNames.length := by
      have hbound : lib.toInt ≤ 10 := Int32.le_iff_toInt_le.mp hten
      simp only [libNames, List.length_cons, List.length_nil]
      omega
    rw [if_pos hten, if_pos hle, if_pos ⟨hle, hten⟩, List.getD_eq_getElem?_getD,
      List.getElem?_eq_getElem hlength]
    rfl
  · have hout : ¬ (0 ≤ lib ∧ lib ≤ 10) := fun h => hten h.2
    rw [if_neg hten, if_neg hout]
    rfl

theorem libraryOf_eq_libraryName {lib q : Int32} (hlib : 0 < lib) :
    libraryOf q = some (libraryName lib) ↔ q = if lib ≤ 10 then lib else 10 := by
  refine ⟨fun hq => libraryOf_inj hq (libraryOf_libraryName hlib), fun hq => ?_⟩
  rw [hq]
  exact libraryOf_libraryName hlib

/-! ### When the best candidate runs -/

/-- The ids of the first best candidate name a best candidate for the executor as well. -/
def Scheduler.NamesBest (rt : Scheduler σ) (chunkSize : UInt64) (context : ScheduleContext)
    (stats : List CompressionStats) (f : CompressionStats) : Prop :=
  0 < f.compressLib ∧ ∃ s, rt.Best chunkSize context stats s ∧
    s.compressLib = (if f.compressLib ≤ 10 then f.compressLib else 10) ∧
    ReadsAs f.compressPreset s.compressPreset

/-- Without a first best candidate nothing is handed. -/
theorem handed_of_none (hlib : (rt.bestCompressForNode context chunkSize stats).bestLib = 0) :
    rt.handed chunkSize context stats = none := by
  unfold Scheduler.handed
  split
  · rfl
  · exact if_pos (Int32.le_of_eq hlib)

/-- With one, its ids are handed as the executor reads them. -/
theorem handed_of_some (hf : f ∈ stats)
    (hlib : (rt.bestCompressForNode context chunkSize stats).bestLib = f.compressLib)
    (hpreset : (rt.bestCompressForNode context chunkSize stats).bestPreset = f.compressPreset) :
    rt.handed chunkSize context stats =
      if f.compressLib ≤ 0 then none
      else some (libraryName f.compressLib, preset f.compressPreset) := by
  have hne : ¬ stats.isEmpty = true := fun h => by
    rw [List.isEmpty_iff.mp h] at hf
    cases hf
  rw [Scheduler.handed, if_neg hne, Context.handed]
  simp only [ScheduleContext.choose, hlib, hpreset]

theorem runsBest_of_none (hnone : rt.handed chunkSize context stats = none) :
    rt.RunsBest chunkSize context stats ↔ ∀ s, ¬ rt.Best chunkSize context stats s := by
  rw [Scheduler.RunsBest, hnone]
  constructor
  · intro h
    exact h.1.mp rfl
  · intro hno
    exact ⟨⟨fun _ => hno, fun _ => rfl⟩, fun _ _ h => by cases h⟩

theorem runsBest_of_some {library : Library} {p : CompressionPreset}
    (hsome : rt.handed chunkSize context stats = some (library, p)) :
    rt.RunsBest chunkSize context stats ↔
      ∃ s, rt.Best chunkSize context stats s ∧ libraryOf s.compressLib = some library ∧
        (configOf s.compressPreset).map Config.preset = some p := by
  rw [Scheduler.RunsBest, hsome]
  constructor
  · intro h
    exact h.2 library p rfl
  · rintro ⟨s, hs, hread⟩
    refine ⟨⟨fun h => (by cases h), fun hno => absurd hs (hno s)⟩, fun library' p' h => ?_⟩
    cases h
    exact ⟨s, hs, hread⟩

/--
**When what was scored best runs.**  There is no best candidate, or the ids of the first
one, read as the executor reads them, are those of a best candidate.
-/
theorem handed_runsBest (rt : Scheduler σ) (chunkSize : UInt64) (context : ScheduleContext)
    (stats : List CompressionStats) :
    rt.RunsBest chunkSize context stats ↔
      (∀ s, ¬ rt.Best chunkSize context stats s) ∨
        ∃ f, rt.FirstBest chunkSize context stats f ∧ rt.NamesBest chunkSize context stats f := by
  obtain ⟨hlib, hno⟩ | ⟨f, hfirst, hlib, hpreset⟩ :=
    bestCompressForNode_spec rt chunkSize context stats
  · rw [runsBest_of_none (handed_of_none hlib)]
    constructor
    · exact .inl
    · rintro (hnone | ⟨f, hfirst, -⟩)
      · exact hnone
      · exact absurd hfirst (hno f)
  · have hhanded := handed_of_some hfirst.best.1 hlib hpreset
    have hthis : (∃ f', rt.FirstBest chunkSize context stats f' ∧
        rt.NamesBest chunkSize context stats f') ↔ rt.NamesBest chunkSize context stats f := by
      constructor
      · rintro ⟨f', hfirst', hnames⟩
        rwa [hfirst'.unique hfirst] at hnames
      · intro hnames
        exact ⟨f, hfirst, hnames⟩
    rw [hthis]
    by_cases hpos : f.compressLib ≤ 0
    · rw [if_pos hpos] at hhanded
      rw [runsBest_of_none hhanded]
      constructor
      · exact .inl
      · rintro (hnone | hnames)
        · exact hnone
        · exact absurd hnames.1 (Int32.not_lt.mpr hpos)
    · have hlt : 0 < f.compressLib := Int32.not_le.mp hpos
      rw [if_neg hpos] at hhanded
      simp only [runsBest_of_some hhanded, libraryOf_eq_libraryName hlt, configOf_eq_preset]
      constructor
      · intro hread
        exact .inr ⟨hlt, hread⟩
      · rintro (hnone | hnames)
        · exact absurd hfirst.best (hnone f)
        · exact hnames.2

/-! ### A candidate that runs as another -/

/-- A scheduler whose predictor prefers the best configuration. -/
def preferBest : Scheduler (TagId × Bytes → Option Bytes) where
  toRuntime := smallRuntime
  sample _ _ _ := ⟨0, 0, 0⟩
  predictor := some fun f => ⟨2 + f.configBest, 0, 1⟩
  pow1001 _ := 1

/-- A context that asks for dynamic compression. -/
def dynamicContext : ScheduleContext :=
  { compressLib := 0, compressPreset := 2, minPersistenceLevel := 0, actualOriginalSize := 0,
    actualCompressedSize := 0, dynamicCompress := 2, targetPsnr := 0, psnrChance := 100,
    maxPerformance := false, dataType := 0 }

def dynamicStats : List CompressionStats :=
  preferBest.estCompressionStats (fun _ => 0) 4096 dynamicContext

/-- Bzip2 in its best configuration is predicted the greatest ratio, and bzip2 in its fast
configuration runs. -/
theorem best_runs_as_fast :
    preferBest.handed 4096 dynamicContext dynamicStats = some (.bzip2, .fast) ∧
      (∀ s ∈ dynamicStats, 2 < s.compressionRatio → s.compressLib = 1 ∧ s.compressPreset = 1) ∧
      ¬ preferBest.RunsBest 4096 dynamicContext dynamicStats := by
  have hhanded : preferBest.handed 4096 dynamicContext dynamicStats = some (.bzip2, .fast) := by
    decide +kernel
  refine ⟨hhanded, by decide +kernel, fun hruns => ?_⟩
  have hnone : ∀ s ∈ dynamicStats, ¬ (libraryOf s.compressLib = some .bzip2 ∧
      (configOf s.compressPreset).map Config.preset = some .fast) := by decide +kernel
  obtain ⟨s, hs, hread⟩ := hruns.2 _ _ hhanded
  exact hnone s hs.1 hread

/-- Where bzip2 is chosen it makes no difference whether there is libpressio. -/
theorem dynamicSchedule_bzip2 :
    let lossy := { preferBest with factory := { smallRuntime.factory with libpressio := true } }
    let t : DynamicScheduleTask :=
      ⟨⟨1, 1⟩, [98], 0, 4096, some fun _ => 0, ⟨0⟩, dynamicContext, 0, ⟨0⟩, 0⟩
    lossy.dynamicSchedule smallRoom (fun _ => none) t =
      preferBest.dynamicSchedule smallRoom (fun _ => none) t := by
  refine dynamicSchedule_handed preferBest _ _ _ _ fun chunk c hdata hc => ?_
  obtain rfl := Option.some.inj hdata
  have hhanded : preferBest.handed 4096 dynamicContext dynamicStats = some (.bzip2, .fast) := by
    decide +kernel
  obtain rfl := Option.some.inj (hc.symm.trans hhanded)
  rfl

end IowarpCore.Compressor
