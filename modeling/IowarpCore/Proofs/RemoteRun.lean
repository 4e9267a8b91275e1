/-
A task that runs on another node gives the same outputs.

What a container reads of a task is carried by `SerializeIn`, the outputs start where the
constructors put them on both nodes, and what the container leaves in them is carried by
`SerializeOut` and taken over by `Aggregate`.  One output is not carried, the block list
of `GetBlobInfo`; its handler leaves it empty.  The two limited queries return no more
than their limit, so aggregation drops nothing.  A `GetBlob` fills a buffer that is not an
output; the bytes it reads are the same wherever it runs.
-/
import IowarpCore.Cte.Metadata
import IowarpCore.Cte.Queries
import IowarpCore.Cte.Telemetry
import IowarpCore.Proofs.Aggregation

namespace IowarpCore.Cte.Wire

/-! ### Running a task -/

/-- What a handler can see of a task's own fields: not where a buffer is, nor what is in
the buffer of a read or behind the data of a write. -/
def Method.view : (m : Method) → m.type.Fields → m.type.Fields
  | .putBlob, f => show PutBlobFields from
      let f : PutBlobFields := f
      { f with blobData := f.blobData.loadIn 0 f.size }
  | .getBlob, f => show GetBlobFields from
      let f : GetBlobFields := f
      { f with blobData := ⟨none, []⟩ }
  | _, f => f

/-- What the handlers of a type leave in outputs that are not carried as they are. -/
def Method.Fits : (m : Method) → m.type.Args → m.type.Outputs → Prop
  | .getBlobInfo, _, out => (show F32 × UInt64 × List BlobBlockInfo from out).2.2 = []
  | .tagQuery, args, out =>
    let max := (show Bytes × UInt32 from args).2
    let results := (show UInt64 × List Bytes from out).2
    max = 0 ∨ results.length ≤ max.toNat
  | .blobQuery, args, out =>
    let max := (show Bytes × Bytes × UInt32 from args).2.2
    let results := (show UInt64 × List Bytes × List Bytes from out).2
    (max = 0 ∨ results.1.length ≤ max.toNat) ∧ results.1.length = results.2.length
  | _, _, _ => True

/-- A container with its handlers: the state one leaves, its outputs and its return code, and
the buffer a `GetBlob` leaves for the one it is given. -/
structure Node (σ : Type) where
  containerId : ContainerId
  run : (m : Method) → σ → m.type.Fields → σ × m.type.Outputs × UInt32
  fill : σ → GetBlobFields → (Nat → UInt8) → Nat → UInt8
  fits : ∀ (m : Method) args s, m.Fits args (run m s (m.view (m.type.emplace args))).2.1

variable {σ : Type}

/-- The buffer of a `GetBlob` is filled in place. -/
def Node.filled (node : Node σ) (s : σ) : (m : Method) → m.type.Fields → m.type.Fields
  | .getBlob, f => show GetBlobFields from
      let f : GetBlobFields := f
      let buffer := node.fill s (Method.view .getBlob f) fun k => f.blobData.bytes.getD k 0
      { f with blobData := { f.blobData with bytes := f.blobData.bytes.mapIdx fun k _ => buffer k } }
  | _, f => f

/-- The container runs a task: it sets the outputs, the code and the completer. -/
def Node.execute (node : Node σ) (m : Method) (s : σ) (t : Task m.type.Fields) :
    σ × Task m.type.Fields :=
  let result := node.run m s (m.view t.own)
  (result.1,
    ⟨{ t.base with returnCode := result.2.2, completer := node.containerId },
      node.filled s m (m.type.withOutputs result.2.1 t.own)⟩)

/-- What becomes of a task on its way: the ids and buffers `SendIn`, `RecvIn` and `RecvOut`
give it. -/
structure Trip where
  netKey : UInt64
  i : UInt32
  query : PoolQuery
  here : Cluster.NodeId
  place : UInt64
  place' : UInt64

/-- A task sent as a replica, run by the container, answered and aggregated. -/
def Node.executeRemote (node : Node σ) (trip : Trip) (m : Method) (s : σ)
    (origin : Task m.type.Fields) : σ × Task m.type.Fields :=
  let replica := m.type.copyFor trip.netKey trip.i trip.query trip.here origin
  let ran := node.execute m s (m.type.received trip.place replica)
  (ran.1, m.type.aggregate (m.type.loadOut trip.place' ran.2 replica) origin)

/-! ### What a container sees and leaves -/

theorem loadIn_loadIn (place place' size : UInt64) (b : Bulk) :
    (b.loadIn place size).loadIn place' size = b.loadIn place' size := by
  unfold Bulk.loadIn
  cases b.ptr with
  | none => rfl
  | some ptr => simp [List.take_take]

/-- The fields a container sees are the same on both nodes. -/
theorem view_received (m : Method) (args : m.type.Args) (place : UInt64) :
    m.view (m.type.serializeIn place (m.type.copy (m.type.emplace args) m.type.null)
        m.type.null) = m.view (m.type.emplace args) := by
  cases m with
  | putBlob =>
    exact congrArg (fun b => { (show PutBlobFields from args) with blobData := b })
      (loadIn_loadIn place 0 _ _)
  | delTag => cases args <;> rfl
  | _ => rfl

theorem tagQuery_append_length (own : TagQueryFields) (names : List Bytes)
    (h : own.results.length ≤ own.maxTags.toNat) (hmax : own.maxTags ≠ 0) :
    (own.append names).results.length ≤ own.maxTags.toNat := by
  induction names generalizing own with
  | nil => exact h
  | cons name rest ih =>
    rw [TagQueryFields.append]
    split
    · exact h
    · rename_i hroom
      have hlt : own.results.length < own.maxTags.toNat := by
        by_contra hge
        exact hroom ⟨hmax, Nat.le_of_not_lt hge⟩
      exact ih { own with results := own.results ++ [name] } (by simpa using Nat.succ_le_of_lt hlt) hmax

/-- The lists of a `BlobQuery` are of one length, within the limit. -/
structure Listed (max : UInt32) (f : BlobQueryFields) : Prop where
  max_eq : f.maxBlobs = max
  within : max = 0 ∨ f.tagNames.length ≤ max.toNat
  paired : f.tagNames.length = f.blobNames.length

theorem Listed.visit {max : UInt32} {f : BlobQueryFields} (h : Listed max f)
    (tagName blobName : Bytes) : Listed max (Container.visit tagName f blobName) := by
  unfold Container.visit
  simp only
  split
  · rename_i hroom
    refine ⟨h.max_eq, ?_, by simp [h.paired]⟩
    rw [h.max_eq] at hroom
    exact hroom.imp_right fun hlt => by simpa using Nat.succ_le_of_lt hlt
  · exact ⟨h.max_eq, h.within, h.paired⟩

theorem Listed.visitTag {max : UInt32} (c : Container) (pattern : Bytes → Bool)
    {f : BlobQueryFields} (h : Listed max f) (tag : Bytes × TagId) :
    Listed max (c.visitTag pattern f tag) :=
  List.foldlRecOn (motive := Listed max) _ _ h fun _ hf name _ => hf.visit tag.1 name

/-- What a container leaves reaches the outputs of the origin. -/
theorem outputs_back (node : Node σ) (s : σ) (m : Method) (args : m.type.Args) (place : UInt64)
    (out : m.type.Outputs) (own : m.type.Fields) (base base' : Base) (hfits : m.Fits args out) :
    m.type.outputs (m.type.aggregate
        ⟨base, m.type.serializeOut place (node.filled s m (m.type.withOutputs out own))
          (m.type.copy (m.type.emplace args) m.type.null)⟩
        ⟨base', m.type.emplace args⟩).own = out := by
  cases m with
  | getTagSize => exact UInt64.zero_add _
  | tagQuery =>
    obtain ⟨tagRegex, max⟩ := args
    obtain ⟨total, results⟩ := out
    have hfits : max = 0 ∨ results.length ≤ max.toNat := hfits
    obtain ⟨htotal, _, hresults⟩ := tagQuery_append ⟨tagRegex, max, 0 + total, []⟩ results
    exact Prod.ext (htotal.trans (UInt64.zero_add _))
      (hresults (hfits.imp_right fun hle => by simpa using hle))
  | blobQuery =>
    obtain ⟨tagRegex, blobRegex, max⟩ := args
    obtain ⟨total, tagNames, blobNames⟩ := out
    have hfits : (max = 0 ∨ tagNames.length ≤ max.toNat) ∧ tagNames.length = blobNames.length :=
      hfits
    obtain ⟨htotal, _, _, hnames⟩ :=
      blobQuery_append ⟨tagRegex, blobRegex, max, 0 + total, [], []⟩ tagNames blobNames
    obtain ⟨htags, hblobs⟩ := hnames (hfits.1.imp_right fun hle => by simpa using hle) hfits.2
    exact Prod.ext (htotal.trans (UInt64.zero_add _)) (Prod.ext htags hblobs)
  | getBlobInfo =>
    exact Prod.ext rfl (Prod.ext rfl hfits.symm)
  | delTag => cases args <;> rfl
  | pollTelemetryLog => exact Prod.ext rfl (List.map_id' _)
  | _ => rfl

theorem outputs_withOutputs (m : Method) (out : m.type.Outputs) (own : m.type.Fields) :
    m.type.outputs (m.type.withOutputs out own) = out := by
  cases m <;> rfl

/-- The replica's code and completer, where the origin has not failed. -/
theorem aggregate_base (T : TaskType) (replica origin : Task T.Fields)
    (h : origin.base.returnCode = 0) :
    (T.aggregate replica origin).base.returnCode = replica.base.returnCode ∧
      (T.aggregate replica origin).base.completer = replica.base.completer := by
  unfold TaskType.aggregate
  cases T.aggregation with
  | copies => exact ⟨rfl, rfl⟩
  | merges merge =>
    refine ⟨?_, rfl⟩
    simp only [Base.aggregate, h]
    split
    · rfl
    · rename_i hzero
      simpa using (not_not.mp hzero).symm

theorem outputs_filled (node : Node σ) (s : σ) (m : Method) (f : m.type.Fields) :
    m.type.outputs (node.filled s m f) = m.type.outputs f := by
  cases m <;> rfl

/-- What a buffer is filled with in spite of what it holds, it holds afterwards. -/
theorem getElem?_filled (node : Node σ) (s : σ) (f : GetBlobFields) {k : Nat} {b : UInt8}
    (hk : k < f.blobData.bytes.length)
    (hfill : ∀ buffer, node.fill s (Method.view .getBlob f) buffer k = b) :
    (show GetBlobFields from node.filled s .getBlob f).blobData.bytes[k]? = some b := by
  show (f.blobData.bytes.mapIdx _)[k]? = some b
  rw [List.getElem?_mapIdx, List.getElem?_eq_getElem hk, Option.map_some, hfill]

variable (node : Node σ) (trip : Trip) (taskId : TaskId) (poolId : PoolId) (poolQuery : PoolQuery)
  (s : σ)

theorem executeRemote_agrees (m : Method) (args : m.type.Args) :
    let origin := m.type.create taskId poolId poolQuery args
    let there := node.executeRemote trip m s origin
    let here := node.execute m s origin
    there.1 = here.1 ∧ m.type.outputs there.2.own = m.type.outputs here.2.own ∧
      there.2.base.returnCode = here.2.base.returnCode ∧
      there.2.base.completer = here.2.base.completer := by
  intro origin there here
  let replica := m.type.copyFor trip.netKey trip.i trip.query trip.here origin
  let received := m.type.received trip.place replica
  have hview : m.view received.own = m.view origin.own := view_received m args trip.place
  have hresult : node.run m s (m.view received.own) = node.run m s (m.view origin.own) := by
    rw [hview]
  obtain ⟨hcode, hcompleter⟩ := aggregate_base m.type
    (m.type.loadOut trip.place' (node.execute m s received).2 replica) origin rfl
  have hback := outputs_back node s m args trip.place' (node.run m s (m.view origin.own)).2.1
    received.own (m.type.loadOut trip.place' (node.execute m s received).2 replica).base
    origin.base (node.fits m args s)
  refine ⟨congrArg (fun result : σ × m.type.Outputs × UInt32 => result.1) hresult, ?_, ?_,
    hcompleter⟩
  · rw [← hresult] at hback
    refine hback.trans ?_
    rw [hresult]
    exact ((outputs_filled node s m _).trans (outputs_withOutputs m _ _)).symm
  · exact hcode.trans (congrArg (fun result : σ × m.type.Outputs × UInt32 => result.2.2) hresult)

/-- The buffer of a `GetBlob`. -/
def bufferOf (t : Task GetBlobFields) : Bytes := t.own.blobData.bytes

theorem executeRemote_reads {args : GetBlobFields} {k : Nat} {b : UInt8}
    (hsize : k < args.size.toNat)
    (hfill : ∀ buffer, node.fill s (Method.view .getBlob args) buffer k = b) :
    (bufferOf (node.executeRemote trip .getBlob s
      (Method.getBlob.type.create taskId poolId poolQuery args)).2)[k]? = some b := by
  -- The buffer at the other node is the size of the read.
  have hthere := getElem?_filled node s
    { args with blobData := Bulk.expose trip.place args.size } (k := k) (b := b)
    (by simpa [Bulk.expose] using hsize) hfill
  obtain ⟨tagId, blobName, offset, size, flags, ptr, bytes⟩ := args
  have htake := (List.getElem?_take_of_lt hsize).trans hthere
  cases ptr with
  | none => exact htake
  | some ptr =>
    refine (List.getElem?_append_left ?_).trans htake
    exact (List.getElem?_eq_some_iff.mp htake).1

/-- What the handlers work on, and what stands in the metadata log file. -/
structure NodeState where
  container : Container
  devices : Bdev.Devices
  telemetry : Telemetry
  snapshot : Bytes

/-- What decides beside the state what a handler does: its draws and the outcomes of its
requests, whether there is a metadata log path and whether its file opens, and what the tasks
about targets do, which create and poll pools of block devices. -/
structure Environment where
  cfg : Cte.Config
  regex : Regex
  draws : List Nat
  outcomes : List Bdev.Outcome
  logPath : Bool
  opens : Bool
  target : (m : Method) → NodeState → m.type.Fields → NodeState × m.type.Outputs × UInt32

variable (env : Environment)

def Environment.resume {α : Type} (task : TaskResume α) (s : NodeState) : α × NodeState :=
  let r := Co.exec Bdev.Devices.serve task env.draws env.outcomes ⟨s.container, s.devices⟩
  (r.1, { s with container := r.2.c, devices := r.2.d })

def PutBlobFields.task (f : PutBlobFields) : PutBlobTask where
  tagId := f.tagId
  blobName := f.blobName
  offset := f.offset
  size := f.size
  blobData := f.blobData.ptr.map fun _ k => f.blobData.bytes.getD k 0
  score := f.score
  context := ⟨f.context.compressLib, f.context.compressPreset, f.context.traceKey,
    f.context.minPersistenceLevel.toInt⟩

def GetBlobFields.task (f : GetBlobFields) (buffer : Nat → UInt8) : GetBlobTask :=
  ⟨f.tagId, f.blobName, f.offset, f.size, buffer⟩

/-- `FlushMetadata`, without its truncation of the logs. -/
def Environment.flushMetadata (s : NodeState) : NodeState × UInt64 × UInt32 :=
  if !env.logPath then (s, 0, 0)
  else if !env.opens then (s, 0, 1)
  else
    let tags := s.container.tagIdToInfo.entries
    let blobs := s.container.blobs.entries.map fun e => (e.1, e.2.info)
    ({ s with snapshot := writeSnapshot tags blobs }, UInt64.ofNat (tags.length + blobs.length), 0)

/-- The handlers, without the entries they add to the telemetry log. -/
def Environment.run : (m : Method) → NodeState → m.type.Fields →
    NodeState × m.type.Outputs × UInt32
  | .getOrCreateTag, s, f =>
    let f : GetOrCreateTagFields := f
    let r := env.resume (getOrCreateTag env.cfg f.tagName f.tagId) s
    (r.2, r.1, 0)
  | .putBlob, s, f =>
    let f : PutBlobFields := f
    let r := env.resume (putBlob env.cfg f.task) s
    (r.2, (f.blobName, f.context), r.1)
  | .getBlob, s, f =>
    let r := env.resume (getBlob (GetBlobFields.task f fun _ => 0)) s
    (r.2, (), r.1.1)
  | .reorganizeBlob, s, f =>
    let f : ReorganizeBlobFields := f
    let r := env.resume (reorganizeBlob env.cfg ⟨f.tagId, f.blobName, f.newScore⟩) s
    (r.2, (), r.1)
  | .delBlob, s, f =>
    let f : DelBlobFields := f
    let r := env.resume (delBlob f.tagId f.blobName) s
    (r.2, (), r.1)
  | .delTag, s, f =>
    let f : DelTagFields := f
    let r := env.resume (delTag f.tagId f.tagName) s
    (r.2, (s.container.resolveTag f.tagId f.tagName).getD f.tagId, r.1)
  | .getTagSize, s, f => (s, s.container.getTagSize f)
  | .pollTelemetryLog, s, f =>
    let f : PollTelemetryLogFields := f
    let r := s.telemetry.pollTelemetryLog f.minimumLogicalTime
    ({ s with telemetry := r.2 }, (r.1.2, r.1.1), 0)
  | .getBlobScore, s, f => (s, s.container.getBlobScore f)
  | .getBlobSize, s, f => (s, s.container.getBlobSize f)
  | .getContainedBlobs, s, f => (s, s.container.getContainedBlobs f)
  | .getBlobInfo, s, f => (s, s.container.getBlobInfo f)
  | .tagQuery, s, f => (s, s.container.tagQuery env.regex f)
  | .blobQuery, s, f => (s, s.container.blobQuery env.regex f)
  | .flushMetadata, s, _ => env.flushMetadata s
  | .flushData, s, f =>
    let f : FlushDataFields := f
    let r := env.resume (flushData env.cfg f.targetPersistenceLevel.toInt) s
    (r.2, r.1, 0)
  | m, s, f => env.target m s f

theorem run_fits (m : Method) (args : m.type.Args) (s : NodeState) :
    m.Fits args (env.run m s (m.view (m.type.emplace args))).2.1 := by
  cases m with
  | getBlobInfo =>
    show (Container.getBlobInfo s.container _).1.2.2 = []
    unfold Container.getBlobInfo
    split
    · rfl
    · split <;> rfl
  | tagQuery =>
    obtain ⟨tagRegex, max⟩ := args
    show max = 0 ∨ (Container.tagQuery env.regex s.container _).1.2.length ≤ max.toNat
    unfold Container.tagQuery
    split
    · exact .inr (Nat.zero_le _)
    · by_cases hmax : max = 0
      · exact .inl hmax
      · exact .inr (tagQuery_append_length _ _ (Nat.zero_le _) hmax)
  | blobQuery =>
    obtain ⟨tagRegex, blobRegex, max⟩ := args
    show (max = 0 ∨ (Container.blobQuery env.regex s.container _).1.2.1.length ≤ max.toNat) ∧
      (Container.blobQuery env.regex s.container _).1.2.1.length =
        (Container.blobQuery env.regex s.container _).1.2.2.length
    unfold Container.blobQuery
    split
    · rename_i tagPattern blobPattern _ _
      have hlisted := List.foldlRecOn (motive := Listed max)
        (s.container.matchingTags tagPattern) (s.container.visitTag blobPattern)
        (b := { (blobQueryTask.emplace (tagRegex, blobRegex, max)) with
          tagNames := [], blobNames := [], totalBlobsMatched := 0 })
        ⟨rfl, .inr (Nat.zero_le _), rfl⟩
        fun _ hf tag _ => hf.visitTag s.container blobPattern tag
      exact ⟨hlisted.within, hlisted.paired⟩
    · exact ⟨.inr (Nat.zero_le _), rfl⟩
  | _ => trivial

/-- A container with the handlers of the source. -/
def Environment.sourceNode (containerId : ContainerId) : Node NodeState where
  containerId := containerId
  run := env.run
  fill s f buffer := (env.resume (getBlob (f.task buffer)) s).1.2
  fits := run_fits env

/-- Three bytes of a RAM device. -/
def threeBytes : BlobBlock := ⟨⟨300, 0⟩, .localQuery, 4, 3⟩

/-- No target is registered. -/
theorem keyed_empty :
    ∀ e ∈ (AMap.empty : AMap PoolId TargetInfo).entries, e.2.bdevClient = e.1 :=
  fun _ he => absurd he List.not_mem_nil

/-- One tag with one blob, which consists of these bytes. -/
def oneBlob : NodeState where
  container :=
    { Container.create ⟨AMap.empty, keyed_empty⟩ 0 with
      tagNameToId := AMap.empty.insertOrAssign [116] ⟨1, 1⟩
      tagIdToInfo := AMap.empty.insertOrAssign ⟨1, 1⟩ ⟨[116], ⟨1, 1⟩, 3⟩
      blobs := AMap.empty.insertOrAssign (compositeKey ⟨1, 1⟩ [98])
        ⟨0, [98], [threeBytes], F32.one, 0, 2, 0⟩ }
  devices :=
    { devs := AMap.empty.insertOrAssign ⟨300, 0⟩
        ⟨.ram, Bdev.Allocator.init 1 16 4096, 16, fun a => UInt8.ofNat a⟩
      granted := fun _ _ => true }
  telemetry := .new
  snapshot := []

/-- Nothing fails, and no log file is configured. -/
def quiet : Environment where
  cfg := ⟨.maxBw, ⟨0⟩, 1, fun _ => true, fun _ => 0⟩
  regex pattern := some (· = pattern)
  draws := []
  outcomes := []
  logPath := false
  opens := false
  target
    | .registerTarget, s, _ | .unregisterTarget, s, _ | .statTargets, s, _ => (s, (), 0)
    | .listTargets, s, _ => (s, [], 0)
    | _, s, f => (s, (Method.type _).outputs f, 1)

theorem fill_oneBlob (buffer : Nat → UInt8) :
    (quiet.sourceNode 7).fill oneBlob ⟨⟨1, 1⟩, [98], 0, 3, 0, ⟨none, []⟩⟩ buffer 1 = 5 := by
  simp only [Environment.sourceNode, Environment.resume, GetBlobFields.task, getBlob,
    checkBlobExists, deref, readData, Co.bind_eq]
  rfl

end IowarpCore.Cte.Wire
