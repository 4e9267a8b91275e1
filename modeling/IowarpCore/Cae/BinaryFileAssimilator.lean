/-
`BinaryFileAssimilator::Schedule`: a file, or a range of one, becomes the chunk blobs of a tag.

The loop submits the puts of up to 32 chunks and waits for the oldest of them, while the
store executes them in any order: a run is any interleaving of the steps of the loop with the
executions of puts that were submitted.  A put at offset 0 replaces the bytes it has and
keeps the rest of the blob; what a put that fails leaves is not specified.  Buffers can be
allocated.
-/
import IowarpCore.Types

namespace IowarpCore

namespace BinaryFileAssimilator

def kMaxChunkSize : Nat := 1024 * 1024

def kMaxParallelTasks : Nat := 32

structure AssimilationCtx where
  src : String
  dst : String
  dependsOn : String
  rangeOff : UInt64
  rangeSize : UInt64

/-- The contents of a file; its size is an `off_t`. -/
abbrev File := { contents : Bytes // contents.length < 2 ^ 63 }

/-- What is outside: the file system, and how the operations on the store end. -/
structure Env where
  file : String → Option File
  isOpen : Bool
  seeks : Bool
  /-- how many bytes can be read before the device fails -/
  readable : Nat
  getOrCreateTag : Bool
  putCode : String → UInt32
  spoil : String → Option Bytes → Option Bytes

/-- The blobs of the destination tag. -/
abbrev Tag := String → Option Bytes

/-- `PutBlob` at offset 0. -/
def putBlob (env : Env) (blobName : String) (data : Bytes) (tag : Tag) : Tag :=
  Function.update tag blobName
    (if env.putCode blobName = 0 then some (data ++ ((tag blobName).getD []).drop data.length)
    else env.spoil blobName (tag blobName))

def chunkName (chunkIdx : Nat) : String := "chunk_" ++ toString chunkIdx

/-! ### Up to the loop -/

/-- What is before and behind the first `::`. -/
def splitUrl : List Char → Option (List Char × List Char)
  | ':' :: ':' :: rest => some ([], rest)
  | c :: rest => (splitUrl rest).map fun (protocol, path) => (c :: protocol, path)
  | [] => none

def getUrlProtocol (url : String) : String := String.ofList ((splitUrl url.toList).elim [] Prod.fst)

def getUrlPath (url : String) : String := String.ofList ((splitUrl url.toList).elim [] Prod.snd)

/-- A file that `stat` does not find counts as empty. -/
def Env.contents (env : Env) (path : String) : Bytes := (env.file path).elim [] Subtype.val

/-- What is to be read. -/
structure Job where
  contents : Bytes
  chunkOffset : UInt64
  totalSize : UInt64

/-- The checks, with the code that they end with. -/
def checks (env : Env) (ctx : AssimilationCtx) : Except Int Job :=
  if getUrlProtocol ctx.dst ≠ "iowarp" then .error (-1)
  else if getUrlPath ctx.dst = "" then .error (-2)
  else if ¬ env.getOrCreateTag then .error (-3)
  else if ctx.dependsOn ≠ "" then .error 0
  else
    let srcPath := getUrlPath ctx.src
    if srcPath = "" then .error (-4)
    else
      let contents := env.contents srcPath
      let fileSize := UInt64.ofNat contents.length
      if ctx.rangeSize > 0 then
        if fileSize = 0 then .error (-5)
        else if ctx.rangeOff + ctx.rangeSize > fileSize then .error (-6)
        else .ok ⟨contents, ctx.rangeOff, ctx.rangeSize⟩
      else if fileSize = 0 then .error (-5)
      else .ok ⟨contents, 0, fileSize⟩

def Job.description (job : Job) : String :=
  "binary<size=" ++ toString job.totalSize.toNat ++ ", offset=" ++ toString job.chunkOffset.toNat ++ ">"

/-! ### The loop -/

structure IfStream where
  pos : Nat
  eof : Bool
  fail : Bool

/-- `read` and `gcount`.  A stream that has failed reads nothing. -/
def IfStream.read (env : Env) (contents : Bytes) (stream : IfStream) (n : Nat) : Bytes × IfStream :=
  if stream.fail then ([], stream)
  else
    let rest := (contents.take env.readable).drop stream.pos
    if n ≤ rest.length then (rest.take n, { stream with pos := stream.pos + n })
    else (rest, ⟨stream.pos + rest.length, decide (contents.length ≤ env.readable), true⟩)

inductive Place
  | filling
  | waiting
  | draining
  | ended (errorCode : Int)
  deriving DecidableEq

/-- The call and the store.  `chunks` has the data of the puts that were submitted, by chunk
index, and `executed` the ones that the store has executed. -/
structure State where
  place : Place
  job : Job
  stream : IfStream
  bytesProcessed : Nat
  chunks : List Bytes
  activeTasks : List Nat
  executed : List Nat
  tag : Tag

/-- The condition of the outer loop. -/
def loopHead (job : Job) (bytesProcessed : Nat) : Place :=
  if bytesProcessed < job.totalSize.toNat then .filling else .draining

/-- The call up to the loop, before any chunk is put. -/
def schedule (env : Env) (ctx : AssimilationCtx) (tag : Tag) : State :=
  match checks env ctx with
  | .error errorCode => ⟨.ended errorCode, ⟨[], 0, 0⟩, ⟨0, false, false⟩, 0, [], [], [], tag⟩
  | .ok job =>
    let tag := putBlob env "description" job.description.toUTF8.toList tag
    let start : State :=
      ⟨loopHead job 0, job, ⟨job.chunkOffset.toNat, false, false⟩, 0, [], [], [], tag⟩
    if env.putCode "description" ≠ 0 then { start with place := .ended (-9) }
    else if ¬ env.isOpen then { start with place := .ended (-7) }
    -- the offset becomes a signed number
    else if ¬ (env.seeks ∧ job.chunkOffset.toNat < 2 ^ 63) then { start with place := .ended (-8) }
    else start

/-- One round of the inner loop.  A read that is short has failed. -/
def submit (env : Env) (s : State) : State :=
  let currentChunkSize := min kMaxChunkSize (s.job.totalSize.toNat - s.bytesProcessed)
  let (buffer, stream) := s.stream.read env s.job.contents currentChunkSize
  if buffer.length ≠ currentChunkSize ∧ ¬ (stream.eof ∧ buffer.length > 0) then
    { s with place := .ended (-9), stream := stream }
  else
    { s with
      stream := stream
      bytesProcessed := s.bytesProcessed + buffer.length
      chunks := s.chunks ++ [buffer]
      activeTasks := s.activeTasks ++ [s.chunks.length] }

/-- The oldest put has been executed. -/
def await (env : Env) (s : State) (first : Nat) (rest : List Nat) (next : Place) : State :=
  if first ∉ s.executed then s
  else if env.putCode (chunkName first) ≠ 0 then { s with place := .ended (-10) }
  else { s with place := next, activeTasks := rest }

/-- A step of the call. -/
def advance (env : Env) (s : State) : State :=
  match s.place with
  | .filling =>
    if s.activeTasks.length < kMaxParallelTasks ∧ s.bytesProcessed < s.job.totalSize.toNat then
      submit env s
    else if s.activeTasks = [] then { s with place := loopHead s.job s.bytesProcessed }
    else { s with place := .waiting }
  | .waiting =>
    match s.activeTasks with
    | [] => s
    | first :: rest => await env s first rest (loopHead s.job s.bytesProcessed)
  | .draining =>
    match s.activeTasks with
    | [] => { s with place := .ended 0 }
    | first :: rest => await env s first rest .draining
  | .ended _ => s

/-- The store executes a put that was submitted. -/
def execute (env : Env) (chunkIdx : Nat) (s : State) : State :=
  match s.chunks[chunkIdx]? with
  | none => s
  | some data =>
    if chunkIdx ∈ s.executed then s
    else
      { s with
        executed := chunkIdx :: s.executed
        tag := putBlob env (chunkName chunkIdx) data s.tag }

inductive Move
  | advance
  | execute (chunkIdx : Nat)

def step (env : Env) (s : State) : Move → State
  | .advance => advance env s
  | .execute chunkIdx => execute env chunkIdx s

def run (env : Env) (moves : List Move) (s : State) : State := moves.foldl (step env) s

end BinaryFileAssimilator

end IowarpCore
