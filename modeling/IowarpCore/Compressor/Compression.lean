/-
The compressor in front of the blob store: `Runtime::Compress` and
`Runtime::Decompress` of compressor_runtime.cc, with the codec factory.

A codec is third-party code, so it is a parameter: two functions, and what the
callers rely on.  The blob store behind the compressor is one too, reached through
the core client.  A pointer is the memory it gives, one byte for each distance, so
that reading a header out of a buffer that is shorter than a header has a meaning.
Compression times, ratios and telemetry are not modelled: nothing reads them back.
-/
import IowarpCore.Types

namespace IowarpCore.Compressor

/-! ### Memory behind a pointer -/

/-- The bytes behind a pointer, by their distance from it. -/
abbrev Memory := Nat → UInt8

/-- The first `n` bytes. -/
def Memory.read (m : Memory) (n : Nat) : Bytes := (List.range n).map m

/-- The pointer moved `n` bytes ahead. -/
def Memory.ahead (m : Memory) (n : Nat) : Memory := fun i => m (n + i)

/-- `memcpy`: `data` over the first bytes. -/
def Memory.holding (m : Memory) (data : Bytes) : Memory := fun i => data[i]?.getD (m i)

/-! ### Codecs and their factory -/

/-- A `Compressor` of compress.h.  `compress` is given the input and the capacity of
the output buffer, `decompress` the compressed bytes by pointer and size and the size
of the output. -/
structure Codec where
  compress : Bytes → UInt64 → Option Bytes
  decompress : Memory → UInt64 → UInt64 → Option Bytes
  /-- The output stays inside the buffer. -/
  fits : ∀ input capacity output, compress input capacity = some output →
    output.length ≤ capacity.toNat
  /-- A size is a `size_t`. -/
  sized : ∀ m size room output, decompress m size room = some output → output.length < 2 ^ 64
  /-- Exactly the compressed bytes and the original size give the input back. -/
  restores : ∀ input capacity output m, compress input capacity = some output →
    input.length < 2 ^ 64 → m.read output.length = output →
    decompress m (UInt64.ofNat output.length) (UInt64.ofNat input.length) = some input

/-- The names the factory is asked for, in the order of `lib_names`. -/
inductive Library where
  | brotli | bzip2 | blosc2 | fpzip | lz4 | lzma | snappy | sz3 | zfp | zlib | zstd
deriving DecidableEq, Repr

def libNames : List Library :=
  [.brotli, .bzip2, .blosc2, .fpzip, .lz4, .lzma, .snappy, .sz3, .zfp, .zlib, .zstd]

/-- The library of an id; any other id means zstd. -/
def libraryName (compressLib : Int32) : Library :=
  if 0 ≤ compressLib ∧ compressLib ≤ 10 then libNames.getD compressLib.toInt.toNat .zstd
  else .zstd

inductive CompressionPreset where
  | fast | balanced | best
deriving DecidableEq, Repr

def preset (compressPreset : Int32) : CompressionPreset :=
  if compressPreset = 1 then .fast
  else if compressPreset = 3 then .best
  else .balanced

/-- The factory: its codecs, and whether the lossy ones are built in. -/
structure CompressionFactory where
  codec : Library → CompressionPreset → Codec
  libpressio : Bool

/-- `CompressionFactory::GetPreset`. -/
def CompressionFactory.getPreset (f : CompressionFactory) (library : Library)
    (p : CompressionPreset) : Option Codec :=
  match library with
  | .zfp | .sz3 | .fpzip => if f.libpressio then some (f.codec library p) else none
  | _ => some (f.codec library p)

/-! ### The header of compressed data -/

/-- `CompressionHeader`, prepended to compressed data. -/
structure CompressionHeader where
  magic : UInt32
  compressLib : UInt32
  compressPreset : UInt32
  originalSize : UInt64
deriving DecidableEq, Repr

def kMagic : UInt32 := 0x43544543

def CompressionHeader.isValid (h : CompressionHeader) : Bool := h.magic == kMagic

/-- `sizeof(CompressionHeader)`. -/
def headerSize : UInt64 := 24

/-- The header as it lies in memory: four bytes of padding before the size. -/
def CompressionHeader.bytes (h : CompressionHeader) : Bytes :=
  leBytes 4 h.magic.toNat ++ leBytes 4 h.compressLib.toNat ++ leBytes 4 h.compressPreset.toNat ++
    [0, 0, 0, 0] ++ leBytes 8 h.originalSize.toNat

/-- The header a pointer to one gives. -/
def Memory.header (m : Memory) : CompressionHeader where
  magic := UInt32.ofNat (leNat (m.read 4))
  compressLib := UInt32.ofNat (leNat ((m.ahead 4).read 4))
  compressPreset := UInt32.ofNat (leNat ((m.ahead 8).read 4))
  originalSize := UInt64.ofNat (leNat ((m.ahead 16).read 8))

/-! ### The blob store -/

/-- The fields of `wrp_cte::core::Context` that `Compress` or `PutBlob` uses. -/
structure Context where
  compressLib : Int32
  compressPreset : Int32
  minPersistenceLevel : Int32
  actualOriginalSize : UInt64
  actualCompressedSize : UInt64
deriving DecidableEq, Repr

/-- What `AsyncPutBlob` sends; the size of the data is the size it is given. -/
structure PutBlob where
  tagId : TagId
  blobName : Bytes
  offset : UInt64
  data : Bytes
  score : F32
  context : Context
  flags : UInt32

/-- What `AsyncGetBlob` sends. -/
structure GetBlob where
  tagId : TagId
  blobName : Bytes
  offset : UInt64
  size : UInt64
  flags : UInt32

/-- The blob store behind the core client.  A put of offset 0 replaces the blob, so its
end is the end of what was put last. -/
structure BlobStore (σ : Type) where
  putBlob : σ → PutBlob → σ × UInt32
  getBlob : σ → GetBlob → UInt32 × Bytes
  readsBack : ∀ s (p : PutBlob) (g : GetBlob), (putBlob s p).2 = 0 → p.offset = 0 →
    g.tagId = p.tagId → g.blobName = p.blobName → g.offset = 0 → g.size.toNat ≤ p.data.length →
    getBlob (putBlob s p).1 g = (0, p.data.take g.size.toNat)
  failsPastEnd : ∀ s (p : PutBlob) (g : GetBlob), (putBlob s p).2 = 0 → p.offset = 0 →
    g.tagId = p.tagId → g.blobName = p.blobName → g.offset = 0 → p.data.length < g.size.toNat →
    (getBlob (putBlob s p).1 g).1 ≠ 0

/-! ### The tasks -/

/-- `CompressTask`; `blobData` is null or what it points to. -/
structure CompressTask where
  tagId : TagId
  blobName : Bytes
  offset : UInt64
  size : UInt64
  blobData : Option Memory
  score : F32
  context : Context
  flags : UInt32
  tierScore : F32
  returnCode : UInt32

/-- `DecompressTask`; `blobData` is null or the output buffer. -/
structure DecompressTask where
  tagId : TagId
  blobName : Bytes
  offset : UInt64
  size : UInt64
  flags : UInt32
  blobData : Option Memory
  outputSize : UInt64
  returnCode : UInt32

/-- The memory a task can get: heap for a vector, shared memory for a buffer. -/
structure Room where
  heap : UInt64 → Bool
  shm : UInt64 → Bool
  /-- No vector is longer than `max_size()`. -/
  heap_max : ∀ n, heap n = true → n.toNat < 2 ^ 63

/-- The compressor's container. -/
structure Runtime (σ : Type) where
  factory : CompressionFactory
  store : BlobStore σ
  targetScores : List F32

variable {σ : Type}

/-- The best score of any target. -/
def Runtime.bestTier (rt : Runtime σ) : F32 :=
  rt.targetScores.foldl (fun best score => if best.lt score then score else best) ⟨0⟩

/-- The put of some bytes in the place of the task's own data. -/
def CompressTask.putOf (t : CompressTask) (data : Bytes) : PutBlob :=
  { tagId := t.tagId, blobName := t.blobName, offset := t.offset, data := data,
    score := t.score, context := t.context, flags := t.flags }

/-- Puts the bytes and takes over the put's code and context, which the store leaves as
it was given. -/
def Runtime.putAs (rt : Runtime σ) (s : σ) (t : CompressTask) (data : Bytes) :
    σ × CompressTask :=
  let put := rt.store.putBlob s (t.putOf data)
  (put.1, { t with returnCode := put.2 })

/-- The capacity of the compression buffer: five per cent and 1024 bytes of overhead. -/
def bufferSize (inputSize : UInt64) : UInt64 := inputSize + inputSize / 20 + 1024

/-- What the codec made of the input, if that with the header is smaller. -/
def Codec.beneficial (codec : Codec) (input : Bytes) (inputSize : UInt64) : Option Bytes :=
  (codec.compress input (bufferSize inputSize)).filter
    fun output => UInt64.ofNat output.length + headerSize < inputSize

/-- `Runtime::Compress`. -/
def Runtime.compress (rt : Runtime σ) (room : Room) (s : σ) (t : CompressTask) :
    σ × CompressTask :=
  match t.blobData with
  | none => (s, { t with returnCode := 1 })
  | some input =>
    if t.size = 0 then (s, { t with returnCode := 1 })
    else
      let t := { t with tierScore := rt.bestTier }
      let data := input.read t.size.toNat
      if t.context.compressLib ≤ 0 then rt.putAs s t data
      else
        match rt.factory.getPreset (libraryName t.context.compressLib)
            (preset t.context.compressPreset) with
        | none => (s, { t with returnCode := 3 })
        | some codec =>
          -- The vector's constructor throws, and the handler catches it.
          if room.heap (bufferSize t.size) = false then (s, { t with returnCode := 6 })
          else
            match codec.beneficial data t.size with
            | none => rt.putAs s t data
            | some output =>
              let total := UInt64.ofNat output.length + headerSize
              let t := { t with context := { t.context with
                actualOriginalSize := t.size, actualCompressedSize := total } }
              if room.shm total = false then (s, { t with returnCode := 4 })
              else
                let header : CompressionHeader :=
                  ⟨kMagic, t.context.compressLib.toUInt32,
                    t.context.compressPreset.toUInt32, t.size⟩
                rt.putAs s t (header.bytes ++ output)

/-- A run of `Compress` tasks, each with the memory it finds. -/
def Runtime.compressAll (rt : Runtime σ) (s : σ) (tasks : List (Room × CompressTask)) : σ :=
  tasks.foldl (fun s task => (rt.compress task.1 s task.2).1) s

/-- `Runtime::Decompress`; `temp` is what the temporary buffer holds when it is
allocated, if it is. -/
def Runtime.decompress (rt : Runtime σ) (temp : Option Memory) (s : σ) (t : DecompressTask) :
    DecompressTask :=
  match t.blobData, temp with
  | none, _ => { t with returnCode := 1 }
  | some _, none => { t with returnCode := 2 }
  | some output, some temp =>
    let get := rt.store.getBlob s
      { tagId := t.tagId, blobName := t.blobName, offset := t.offset, size := t.size,
        flags := t.flags }
    if get.1 ≠ 0 then { t with returnCode := 10 + get.1 }
    else
      let buffer := temp.holding get.2
      let header := buffer.header
      if header.isValid then
        match rt.factory.getPreset (libraryName header.compressLib.toInt32)
            (preset header.compressPreset.toInt32) with
        | none => { t with returnCode := 3 }
        | some codec =>
          match codec.decompress (buffer.ahead headerSize.toNat) (t.size - headerSize)
              header.originalSize with
          | some data =>
            { t with blobData := some (output.holding data),
                     outputSize := UInt64.ofNat data.length, returnCode := 0 }
          | none => { t with outputSize := 0, returnCode := 5 }
      else
        { t with blobData := some (output.holding (buffer.read t.size.toNat)),
                 outputSize := t.size, returnCode := 0 }

end IowarpCore.Compressor
