/-
When a compressed blob can be read back.

`Compress` stores either the data as it is or a header and the compressed data, and
does not record how long the stored form is.  `Decompress` reads as many bytes as the
caller wants back, which the shorter form does not have, and takes the first four for
a header's magic number whoever wrote them.  So the data come back exactly if they
were stored as they are and are not taken for a header, or happen to be what their own
header decodes to.  The stored form itself is sound: read with its own size, it
restores the data.
-/
import IowarpCore.Compressor.Compression

namespace IowarpCore.Compressor

variable {σ : Type}

/-! ### Memory and headers -/

@[simp] theorem length_read (m : Memory) (n : Nat) : (m.read n).length = n := by
  simp [Memory.read]

variable {n : Nat} {data : Bytes} {rt : Runtime σ} {s s' : σ} {t : CompressTask} {flags : UInt32}
  {output : Memory}

theorem getElem?_read (m : Memory) {i : Nat} (h : i < n) : (m.read n)[i]? = some (m i) := by
  simp [Memory.read, h]

/-- What was copied to the front is read from there. -/
theorem read_holding {m : Memory} (h : n ≤ data.length) :
    (m.holding data).read n = data.take n := by
  apply List.ext_getElem?
  intro i
  by_cases hi : i < n
  · have hin : i < data.length := by omega
    rw [getElem?_read _ hi, List.getElem?_take_of_lt hi]
    simp [Memory.holding, hin]
  · have hout : n ≤ i := by omega
    rw [List.getElem?_eq_none (by simpa using hout),
      List.getElem?_eq_none (by rw [List.length_take]; omega)]

/-- Behind what was copied, the rest of it follows. -/
theorem read_ahead_holding (m : Memory) (front rest : Bytes) (h : n ≤ rest.length) :
    ((m.holding (front ++ rest)).ahead front.length).read n = rest.take n := by
  have hshift : (m.holding (front ++ rest)).ahead front.length =
      (m.ahead front.length).holding rest := by
    funext i
    have hget : (front ++ rest)[front.length + i]? = rest[i]? := by
      rw [List.getElem?_append_right (by omega), Nat.add_sub_cancel_left]
    simp [Memory.ahead, Memory.holding, hget]
  rw [hshift, read_holding h]

theorem length_bytes (h : CompressionHeader) : h.bytes.length = headerSize.toNat := by
  simp [CompressionHeader.bytes, headerSize]

/-- A field of a header lies behind the fields before it. -/
theorem read_field (m : Memory) (front field rest : Bytes) :
    ((m.holding (front ++ field ++ rest)).ahead front.length).read field.length = field := by
  rw [List.append_assoc, read_ahead_holding m front (field ++ rest) (by simp), List.take_left]

/-- The header in front of some bytes is read back. -/
theorem header_holding (m : Memory) (h : CompressionHeader) (rest : Bytes) :
    (m.holding (h.bytes ++ rest)).header = h := by
  obtain ⟨magic, lib, preset, size⟩ := h
  have hmagic := read_field m [] (leBytes 4 magic.toNat)
    (leBytes 4 lib.toNat ++ leBytes 4 preset.toNat ++ [0, 0, 0, 0] ++ leBytes 8 size.toNat ++ rest)
  have hlib := read_field m (leBytes 4 magic.toNat) (leBytes 4 lib.toNat)
    (leBytes 4 preset.toNat ++ [0, 0, 0, 0] ++ leBytes 8 size.toNat ++ rest)
  have hpreset := read_field m (leBytes 4 magic.toNat ++ leBytes 4 lib.toNat)
    (leBytes 4 preset.toNat) ([0, 0, 0, 0] ++ leBytes 8 size.toNat ++ rest)
  have hsize := read_field m (leBytes 4 magic.toNat ++ leBytes 4 lib.toNat ++
    leBytes 4 preset.toNat ++ [0, 0, 0, 0]) (leBytes 8 size.toNat) rest
  simp only [List.append_assoc, List.nil_append, leBytes_length, List.length_append,
    List.length_nil, List.length_cons] at hmagic hlib hpreset hsize
  have hzero : ∀ n : Memory, n.ahead 0 = n := by
    intro n
    funext i
    simp [Memory.ahead]
  rw [hzero] at hmagic
  unfold Memory.header CompressionHeader.bytes
  simp only [List.append_assoc, hmagic, hlib, hpreset, hsize]
  rw [leNat_leBytes_of_lt magic.toNat_lt, leNat_leBytes_of_lt lib.toNat_lt,
    leNat_leBytes_of_lt preset.toNat_lt, leNat_leBytes_of_lt size.toNat_lt]
  simp

/-! ### What a put stores -/

/-- The compressed data of a task, where `Compress` stores these. -/
def Runtime.compressedForm (rt : Runtime σ) (t : CompressTask) (data : Bytes) : Option Bytes :=
  if t.context.compressLib ≤ 0 then none
  else
    (rt.factory.getPreset (libraryName t.context.compressLib)
      (preset t.context.compressPreset)).bind fun codec => codec.beneficial data t.size

/-- The header `Compress` writes. -/
def CompressTask.header (t : CompressTask) : CompressionHeader :=
  ⟨kMagic, t.context.compressLib.toUInt32, t.context.compressPreset.toUInt32, t.size⟩

/-- The bytes a task stores. -/
def Runtime.storedForm (rt : Runtime σ) (t : CompressTask) (data : Bytes) : Bytes :=
  match rt.compressedForm t data with
  | none => data
  | some output => t.header.bytes ++ output

/-- The state a put of some bytes under the task's names leaves. -/
structure Put (rt : Runtime σ) (t : CompressTask) (s : σ) (stored : Bytes) (s' : σ) : Prop where
  by_put : ∃ p : PutBlob, p.tagId = t.tagId ∧ p.blobName = t.blobName ∧ p.offset = t.offset ∧
    p.data = stored ∧ rt.store.putBlob s p = (s', 0)

/-- A `Compress` that returned 0 put the stored form of its data. -/
theorem compress_put {room : Room} (hok : (rt.compress room s t).2.returnCode = 0) :
    ∃ input, t.blobData = some input ∧
      Put rt t s (rt.storedForm t (input.read t.size.toNat)) (rt.compress room s t).1 ∧
      (rt.compressedForm t (input.read t.size.toNat) ≠ none →
        (bufferSize t.size).toNat < 2 ^ 63) := by
  unfold Runtime.compress at hok ⊢
  cases hinput : t.blobData with
  | none => simp [hinput] at hok
  | some input =>
    refine ⟨input, rfl, ?_⟩
    simp only [hinput] at hok ⊢
    by_cases hsize : t.size = 0
    · simp [hsize] at hok
    simp only [hsize, if_false] at hok ⊢
    unfold Runtime.storedForm Runtime.compressedForm
    by_cases hlib : t.context.compressLib ≤ 0
    · simp only [hlib, if_true] at hok ⊢
      exact ⟨⟨_, rfl, rfl, rfl, rfl, Prod.ext rfl hok⟩, by simp⟩
    simp only [hlib, if_false] at hok ⊢
    cases hcodec : rt.factory.getPreset (libraryName t.context.compressLib)
        (preset t.context.compressPreset) with
    | none => simp [hcodec] at hok
    | some codec =>
      simp only [hcodec, Option.bind_some] at hok ⊢
      by_cases hheap : room.heap (bufferSize t.size) = false
      · simp [hheap] at hok
      simp only [hheap] at hok ⊢
      cases hben : codec.beneficial (input.read t.size.toNat) t.size with
      | none =>
        simp only [hben] at hok ⊢
        exact ⟨⟨_, rfl, rfl, rfl, rfl, Prod.ext rfl hok⟩, by simp⟩
      | some output =>
        simp only [hben] at hok ⊢
        by_cases hshm : room.shm (UInt64.ofNat output.length + headerSize) = false
        · simp [hshm] at hok
        simp only [hshm] at hok ⊢
        exact ⟨⟨_, rfl, rfl, rfl, rfl, Prod.ext rfl hok⟩,
          fun _ => room.heap_max _ (by simpa using hheap)⟩

/-- The compressed form with its header is shorter than the data. -/
theorem compressedForm_short {output : Bytes}
    (hroom : (bufferSize t.size).toNat < 2 ^ 63) (hform : rt.compressedForm t data = some output) :
    (t.header.bytes ++ output).length < t.size.toNat := by
  unfold Runtime.compressedForm at hform
  split at hform
  · simp at hform
  obtain ⟨codec, _, hben⟩ := Option.bind_eq_some_iff.mp hform
  obtain ⟨hcompress, hless⟩ := Option.filter_eq_some_iff.mp hben
  have hfits := codec.fits _ _ _ hcompress
  have hless : UInt64.ofNat output.length + headerSize < t.size := by simpa using hless
  have hlen : output.length < 2 ^ 64 := by omega
  have hheader : headerSize.toNat = 24 := rfl
  rw [UInt64.lt_iff_toNat_lt, UInt64.toNat_add, UInt64.toNat_ofNat_of_lt' hlen, hheader] at hless
  rw [List.length_append, length_bytes, hheader]
  omega

/-! ### Reading the stored form back -/

/-- A `Decompress` of a blob: its name, the size wanted and the output buffer. -/
def CompressTask.readBack (t : CompressTask) (size : UInt64) (flags : UInt32)
    (output : Memory) : DecompressTask :=
  { tagId := t.tagId, blobName := t.blobName, offset := 0, size := size, flags := flags,
    blobData := some output, outputSize := 0, returnCode := 0 }

/-- The task returned 0 and gave exactly these bytes. -/
def Restored (d : DecompressTask) (data : Bytes) : Prop :=
  d.returnCode = 0 ∧ d.outputSize.toNat = data.length ∧
    ∃ output, d.blobData = some output ∧ output.read data.length = data

/-- A buffer is read as a header whose codec makes `data` of the rest of it. -/
def Runtime.DecodesTo (rt : Runtime σ) (buffer : Memory) (size : UInt64) (data : Bytes) : Prop :=
  ∃ codec, rt.factory.getPreset (libraryName buffer.header.compressLib.toInt32)
      (preset buffer.header.compressPreset.toInt32) = some codec ∧
    codec.decompress (buffer.ahead headerSize.toNat) (size - headerSize)
      buffer.header.originalSize = some data

/-- **A read past the end of the stored form restores nothing.** -/
theorem not_restored_of_short {stored : Bytes} {temp : Option Memory} {size : UInt64}
    (hput : Put rt t s stored s') (hoffset : t.offset = 0) (hshort : stored.length < size.toNat)
    (hdata : data ≠ []) :
    ¬Restored (rt.decompress temp s' (t.readBack size flags output)) data := by
  obtain ⟨p, htag, hname, hoff, hdata', hputs⟩ := hput
  intro hrestored
  cases temp with
  | none =>
    have hcode : (2 : UInt32) = 0 := hrestored.1
    exact absurd hcode (by decide)
  | some temp =>
    have hfails := rt.store.failsPastEnd s p
      ⟨t.tagId, t.blobName, 0, size, flags⟩ (by rw [hputs]) (hoff.trans hoffset)
      htag.symm hname.symm rfl (by rw [hdata']; exact hshort)
    rw [hputs] at hfails
    -- The failed read leaves the output size as the constructor set it.
    have hsize := hrestored.2.1
    simp only [Runtime.decompress, CompressTask.readBack, hfails, ne_eq, not_false_eq_true,
      if_true] at hsize
    exact hdata (List.length_eq_zero_iff.mp hsize.symm)

/-- A task that returned 0 with its output in the buffer gave that output. -/
theorem restored_holding_iff {d : DecompressTask} {out : Bytes} (hlen : out.length < 2 ^ 64) :
    Restored { d with blobData := some (output.holding out),
                      outputSize := UInt64.ofNat out.length, returnCode := 0 } data ↔
      out = data := by
  have hback : (output.holding out).read out.length = out := by
    rw [read_holding (Nat.le_refl _), List.take_length]
  constructor
  · rintro ⟨_, hsize, buffer, hbuffer, hread⟩
    rw [UInt64.toNat_ofNat_of_lt' hlen] at hsize
    rw [Option.some.injEq] at hbuffer
    rw [← hbuffer, ← hsize, hback] at hread
    exact hread
  · intro hout
    subst hout
    exact ⟨rfl, UInt64.toNat_ofNat_of_lt' hlen, _, rfl, hback⟩

/-- **What a read of the whole stored form gives**: the data it is taken for, if the
buffer is had. -/
theorem restored_iff {stored : Bytes} {temp : Option Memory} {size : UInt64}
    (hput : Put rt t s stored s') (hoffset : t.offset = 0) (hsize : stored.length = size.toNat) :
    Restored (rt.decompress temp s' (t.readBack size flags output)) data ↔
      ∃ memory, temp = some memory ∧
        if (memory.holding stored).header.isValid then
          rt.DecodesTo (memory.holding stored) size data
        else data = stored := by
  obtain ⟨p, htag, hname, hoff, hdata, hputs⟩ := hput
  cases temp with
  | none =>
    constructor
    · intro hrestored
      have hcode : (2 : UInt32) = 0 := hrestored.1
      exact absurd hcode (by decide)
    · rintro ⟨memory, hnone, _⟩
      simp at hnone
  | some memory =>
    have hreads := rt.store.readsBack s p
      ⟨t.tagId, t.blobName, 0, size, flags⟩ (by rw [hputs]) (hoff.trans hoffset)
      htag.symm hname.symm rfl (by rw [hdata, hsize])
    rw [hputs, hdata, ← hsize, List.take_length] at hreads
    simp only [Option.some.injEq, exists_eq_left']
    unfold Runtime.decompress CompressTask.readBack
    simp only [hreads]
    by_cases hvalid : (memory.holding stored).header.isValid = true
    · simp only [hvalid, if_true]
      unfold Runtime.DecodesTo
      cases hcodec : rt.factory.getPreset
          (libraryName (memory.holding stored).header.compressLib.toInt32)
          (preset (memory.holding stored).header.compressPreset.toInt32) with
      | none => simp [Restored]
      | some codec =>
        cases hdecode : codec.decompress ((memory.holding stored).ahead headerSize.toNat)
            (size - headerSize) (memory.holding stored).header.originalSize with
        | none => simp [Restored, hdecode]
        | some out =>
          simp only [ne_eq, not_true_eq_false, if_false, hdecode]
          refine (restored_holding_iff (d := t.readBack size flags output)
            (codec.sized _ _ _ _ hdecode)).trans ?_
          simp [hdecode]
    · simp only [ne_eq, not_true_eq_false, if_false, hvalid, Bool.false_eq_true]
      have hwhole : (memory.holding stored).read size.toNat = stored := by
        rw [← hsize, read_holding (Nat.le_refl _), List.take_length]
      have hlen : size = UInt64.ofNat stored.length := by simp [hsize]
      rw [hwhole, hlen]
      exact (restored_holding_iff (d := t.readBack _ flags output)
        (by rw [hsize]; exact size.toNat_lt)).trans eq_comm

/-- **The stored form is sound**: asked for with its own size, it gives the data. -/
theorem restored_of_stored_size {output : Bytes} {memory : Memory} {buffer : Memory}
    (hform : rt.compressedForm t data = some output) (hlen : data.length = t.size.toNat)
    (hroom : (bufferSize t.size).toNat < 2 ^ 63) (hoffset : t.offset = 0)
    (hput : Put rt t s (rt.storedForm t data) s') :
    Restored
      (rt.decompress (some memory) s'
        (t.readBack (UInt64.ofNat (rt.storedForm t data).length) flags buffer)) data := by
  have hstored : rt.storedForm t data = t.header.bytes ++ output := by
    simp [Runtime.storedForm, hform]
  have hshort := compressedForm_short hroom hform
  rw [hstored] at hput ⊢
  have hsize : (t.header.bytes ++ output).length < 2 ^ 64 := by
    have := t.size.toNat_lt
    omega
  rw [restored_iff hput hoffset (UInt64.toNat_ofNat_of_lt' hsize).symm]
  refine ⟨memory, rfl, ?_⟩
  have hheader := header_holding memory t.header output
  have hvalid : (memory.holding (t.header.bytes ++ output)).header.isValid = true := by
    rw [hheader]
    rfl
  rw [if_pos hvalid]
  unfold Runtime.compressedForm at hform
  split at hform
  · simp at hform
  obtain ⟨codec, hcodec, hben⟩ := Option.bind_eq_some_iff.mp hform
  obtain ⟨hcompress, _⟩ := Option.filter_eq_some_iff.mp hben
  refine ⟨codec, ?_, ?_⟩
  · rw [hheader]
    simpa [CompressTask.header] using hcodec
  · -- The codec is given what it made, and the size the header records.
    have hbehind := read_ahead_holding memory t.header.bytes output (Nat.le_refl _)
    rw [length_bytes, List.take_length] at hbehind
    have hrest : UInt64.ofNat (t.header.bytes ++ output).length - headerSize =
        UInt64.ofNat output.length := by
      rw [List.length_append, length_bytes, UInt64.ofNat_add, UInt64.ofNat_toNat]
      grind
    have horiginal : t.size = UInt64.ofNat data.length := by simp [hlen]
    have hback := codec.restores _ _ _ _ hcompress (by rw [hlen]; exact t.size.toNat_lt) hbehind
    rw [hrest, hheader]
    simpa [CompressTask.header, horiginal] using hback

/-! ### Transparency -/

/-- **When the data of a `Compress` come back**: they were stored as they are, a buffer
is had to read them into, and they are not taken for a header or decode to themselves. -/
theorem transparent_iff (rt : Runtime σ) (s : σ) (history : List (Room × CompressTask))
    (room : Room) (t : CompressTask) (input : Memory) (temp : Option Memory) (flags : UInt32)
    (output : Memory) (hinput : t.blobData = some input) (hoffset : t.offset = 0)
    (hok : (rt.compress room (rt.compressAll s history) t).2.returnCode = 0) :
    Restored
        (rt.decompress temp (rt.compressAll s (history ++ [(room, t)]))
          (t.readBack t.size flags output))
        (input.read t.size.toNat) ↔
      rt.compressedForm t (input.read t.size.toNat) = none ∧
        ∃ memory, temp = some memory ∧
          ((memory.holding (input.read t.size.toNat)).header.isValid →
            rt.DecodesTo (memory.holding (input.read t.size.toNat)) t.size
              (input.read t.size.toNat)) := by
  obtain ⟨input', hinput', hput, hroom⟩ := compress_put hok
  rw [hinput, Option.some.injEq] at hinput'
  subst hinput'
  have hrun : rt.compressAll s (history ++ [(room, t)]) =
      (rt.compress room (rt.compressAll s history) t).1 := by
    simp [Runtime.compressAll, List.foldl_append]
  rw [hrun]
  unfold Runtime.storedForm at hput
  cases hform : rt.compressedForm t (input.read t.size.toNat) with
  | none =>
    rw [hform] at hput
    rw [restored_iff hput hoffset (length_read _ _)]
    simp
  | some form =>
    rw [hform] at hput
    have hshort := compressedForm_short (hroom (by simp [hform])) hform
    have hne : input.read t.size.toNat ≠ [] := by
      intro hnil
      have hzero := congrArg List.length hnil
      rw [length_read] at hzero
      simp at hzero hshort
      omega
    simp only [reduceCtorEq, false_and, iff_false]
    exact not_restored_of_short hput hoffset hshort hne

/-! ### A compressor on concrete data -/

/-- A codec of runs: one byte stands for a whole input that repeats it. -/
def runCodec : Codec where
  compress input capacity :=
    match input with
    | [] => none
    | b :: rest => if rest = List.replicate rest.length b ∧ 1 ≤ capacity then some [b] else none
  decompress m size room := if size = 1 then some (List.replicate room.toNat (m 0)) else none
  fits := by
    intro input capacity output h
    cases input with
    | nil => simp at h
    | cons b rest =>
      obtain ⟨⟨_, hroom⟩, hout⟩ := Option.ite_none_right_eq_some.mp h
      rw [Option.some.injEq] at hout
      rw [← hout]
      exact UInt64.le_iff_toNat_le.mp hroom
  sized := by
    intro m size room output h
    obtain ⟨_, hout⟩ := Option.ite_none_right_eq_some.mp h
    rw [Option.some.injEq] at hout
    rw [← hout, List.length_replicate]
    exact room.toNat_lt
  restores := by
    intro input capacity output m h hlen hread
    cases input with
    | nil => simp at h
    | cons b rest =>
      obtain ⟨⟨hrun, _⟩, hout⟩ := Option.ite_none_right_eq_some.mp h
      rw [Option.some.injEq] at hout
      subst hout
      have hfirst : m 0 = b := by simpa [Memory.read] using hread
      have hone : UInt64.ofNat [b].length = 1 := rfl
      rw [if_pos hone, hfirst, UInt64.toNat_ofNat_of_lt' hlen, List.length_cons,
        List.replicate_succ, ← hrun]

/-- A store that keeps each blob's bytes, and takes whole blobs only. -/
def keptBlobs : BlobStore (TagId × Bytes → Option Bytes) where
  putBlob s p :=
    if p.offset = 0 then (fun key => if key = (p.tagId, p.blobName) then some p.data else s key, 0)
    else (s, 1)
  getBlob s g :=
    match s (g.tagId, g.blobName) with
    | none => (1, [])
    | some data =>
      if g.offset.toNat + g.size.toNat ≤ data.length then
        (0, (data.drop g.offset.toNat).take g.size.toNat)
      else (1, [])
  readsBack := by
    intro s p g _ hoffset htag hname hzero hsize
    simp [hoffset, htag, hname, hzero, hsize]
  failsPastEnd := by
    intro s p g _ hoffset htag hname hzero hsize
    simp [hoffset, htag, hname, hzero, Nat.not_le.mpr hsize]

def smallRuntime : Runtime (TagId × Bytes → Option Bytes) where
  factory := { codec := fun _ _ => runCodec, libpressio := false }
  store := keptBlobs
  targetScores := []

/-- Room for anything below 2^20 bytes. -/
def smallRoom : Room where
  heap n := n < 1048576
  shm n := n < 1048576
  heap_max := by
    intro n h
    have hlt := UInt64.lt_iff_toNat_lt.mp (of_decide_eq_true h)
    have hvalue : (1048576 : UInt64).toNat = 1048576 := rfl
    omega

/-- A `Compress` of some data with a library. -/
def compressOf (compressLib : Int32) (data : Bytes) : CompressTask :=
  { tagId := ⟨1, 1⟩, blobName := [98], offset := 0, size := UInt64.ofNat data.length,
    blobData := some (Memory.holding (fun _ => 0) data), score := ⟨0⟩,
    context := ⟨compressLib, 2, 0, 0, 0⟩, flags := 0, tierScore := ⟨0⟩, returnCode := 0 }

/-- 24 bytes that begin like a header for zfp. -/
def headerLike : Bytes := [0x43, 0x45, 0x54, 0x43, 8] ++ List.replicate 19 0

/-- 100 bytes that every codec shortens. -/
def hundredZeros : Bytes := List.replicate 100 0

/-- A put of `data` with a library, on its own, and a read of as many bytes. -/
def roundTrip (compressLib : Int32) (data : Bytes) : UInt32 × DecompressTask :=
  let t := compressOf compressLib data
  let put := smallRuntime.compress smallRoom (fun _ => none) t
  (put.2.returnCode,
    smallRuntime.decompress (some fun _ => 0) put.1 (t.readBack t.size 0 fun _ => 0))

/-- Three different bytes come back, after a compressed version of the same blob. -/
theorem transparent_threeBytes :
    Restored
      (smallRuntime.decompress (some fun _ => 0)
        (smallRuntime.compressAll (fun _ => none)
          ([(smallRoom, compressOf 4 hundredZeros)] ++ [(smallRoom, compressOf 4 [1, 2, 3])]))
        ((compressOf 4 [1, 2, 3]).readBack 3 0 fun _ => 0))
      [1, 2, 3] :=
  (transparent_iff smallRuntime (fun _ => none) [(smallRoom, compressOf 4 hundredZeros)] smallRoom
    (compressOf 4 [1, 2, 3]) (Memory.holding (fun _ => 0) [1, 2, 3]) (some fun _ => 0) 0
    (fun _ => 0) rfl rfl (by decide)).mpr
      ⟨by decide, _, rfl, fun hvalid => absurd hvalid (by decide)⟩

/-- The zeros are stored compressed, and read with that size they come back. -/
theorem restored_hundredZeros :
    Restored
      (smallRuntime.decompress (some fun _ => 0)
        (smallRuntime.compress smallRoom (fun _ => none) (compressOf 4 hundredZeros)).1
        ((compressOf 4 hundredZeros).readBack 25 0 fun _ => 0)) hundredZeros := by
  have hform : smallRuntime.compressedForm (compressOf 4 hundredZeros) hundredZeros = some [0] := by
    decide +kernel
  have hok : (smallRuntime.compress smallRoom (fun _ => none)
      (compressOf 4 hundredZeros)).2.returnCode = 0 := by
    decide +kernel
  obtain ⟨_, hdata, hput, _⟩ := compress_put hok
  obtain rfl := Option.some.inj hdata
  exact restored_of_stored_size hform rfl (by decide) rfl hput

/-- Data stored as they are and taken for a header, and data stored compressed: the put
returns 0 and the read fails. -/
theorem stored_and_not_restored :
    ((roundTrip 0 headerLike).1 = 0 ∧ (roundTrip 0 headerLike).2.returnCode = 3 ∧
      ¬Restored (roundTrip 0 headerLike).2 headerLike) ∧
    (roundTrip 4 hundredZeros).1 = 0 ∧ (roundTrip 4 hundredZeros).2.returnCode = 11 ∧
      ¬Restored (roundTrip 4 hundredZeros).2 hundredZeros := by
  have hlike : (roundTrip 0 headerLike).2.returnCode = 3 := by decide
  have hzeros : (roundTrip 4 hundredZeros).2.returnCode = 11 := by decide
  refine ⟨⟨by decide, hlike, ?_⟩, by decide, hzeros, ?_⟩
  · intro h
    exact absurd (hlike.symm.trans h.1) (by decide)
  · intro h
    exact absurd (hzeros.symm.trans h.1) (by decide)

end IowarpCore.Compressor
