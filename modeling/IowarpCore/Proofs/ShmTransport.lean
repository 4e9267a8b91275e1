/-
The shared-memory transport is a byte stream without loss.

Byte `i` of the stream is at counter value `position + i`, and in the ring at that value
modulo the size of the ring.  Two bytes that are in the ring at once are less than the size
apart and so in different places (`Carries`).  The counters wrap at `2 ^ 64`; the places
go on undisturbed if the size divides that, and otherwise they jump.

The receiver decides from what it has read how many bytes it reads next.  On a stream of
messages that decision is the sender's (`parse_shmRecv`), and chunks do not matter
(`Reading.parse_settle`).
-/
import IowarpCore.Lightbeam.ShmTransport

namespace IowarpCore
namespace Lightbeam

/-! ### Places in the ring -/

theorem add_mod_of_room {a c j : Nat} (h : a % c + j < c) : (a + j) % c = a % c + j := by
  rw [← Nat.mod_add_mod, Nat.mod_eq_of_lt h]

theorem mod_ne_of_lt {a c i j : Nat} (hij : i < j) (hlt : j < i + c) : (a + i) % c ≠ (a + j) % c := by
  intro h
  have hdvd : c ∣ (a + j) - (a + i) := Nat.dvd_of_mod_eq_zero (Nat.sub_mod_eq_zero_of_mod_eq h.symm)
  have := Nat.eq_zero_of_dvd_of_lt hdvd (by omega)
  omega

/-- The counters do not disturb the places: the size of the ring divides `2 ^ 64`, or the
stream ends before they wrap. -/
def Undisturbed (size position : UInt64) (length : Nat) : Prop :=
  size.toNat ∣ 2 ^ 64 ∨ position.toNat + length ≤ 2 ^ 64

theorem Undisturbed.place {size position : UInt64} {length i : Nat}
    (h : Undisturbed size position length) (hi : i < length) :
    ((position + UInt64.ofNat i) % size).toNat = (position.toNat + i) % size.toNat := by
  rw [UInt64.toNat_mod, UInt64.toNat_add, UInt64.toNat_ofNat']
  rw [Nat.add_mod_mod]
  rcases h with hdvd | hle
  · exact Nat.mod_mod_of_dvd _ hdvd
  · rw [Nat.mod_eq_of_lt (a := position.toNat + i) (by omega)]

/-! ### The ring -/

/-- The ring carries the stream: `w` bytes of it were written, `r` bytes were read, and those
between are in their places. -/
structure Carries (stream : Bytes) (size position : UInt64) (w r : Nat) (ring : Ring) : Prop where
  sized : ring.copySpaceSize = size
  written : ring.totalWritten = position + UInt64.ofNat w
  read : ring.totalRead = position + UInt64.ofNat r
  le : r ≤ w
  room : w ≤ r + size.toNat
  length : w ≤ stream.length
  content : ∀ i, r ≤ i → i < w →
    ring.copySpace ((position.toNat + i) % size.toNat) = stream.getD i 0

section

variable {stream : Bytes} {size position : UInt64} {w r : Nat} {ring : Ring}

theorem Carries.unread (h : Carries stream size position w r ring) : ring.unread = w - r := by
  have hlt := size.toNat_lt
  have hroom := h.room
  have hle := h.le
  have hposition := position.toNat_lt
  rw [Ring.unread, h.written, h.read, UInt64.toNat_sub, UInt64.toNat_add, UInt64.toNat_add,
    UInt64.toNat_ofNat', UInt64.toNat_ofNat']
  omega

/-- What a pass of the sender finds: the space that is left, and where it goes on. -/
theorem Carries.writeChunk (h : Carries stream size position w r ring)
    (hfine : Undisturbed size position stream.length) (hsize : 0 < size.toNat) (data : Bytes)
    (hw : w < stream.length) :
    ring.writeChunk data = min (min data.length (size.toNat - (w - r)))
      (size.toNat - (position.toNat + w) % size.toNat) := by
  have hunread := h.unread
  have hroom := h.room
  unfold Ring.unread at hunread
  have hle : ring.totalWritten - ring.totalRead ≤ size := by
    rw [UInt64.le_iff_toNat_le, hunread]
    omega
  have hspace : (size - (ring.totalWritten - ring.totalRead)).toNat = size.toNat - (w - r) := by
    rw [UInt64.toNat_sub_of_le _ _ hle, hunread]
  have hplace := hfine.place hw
  rw [← h.written] at hplace
  have hmod : (position.toNat + w) % size.toNat < size.toNat := Nat.mod_lt _ hsize
  have hcontig : (size - ring.totalWritten % size).toNat =
      size.toNat - (position.toNat + w) % size.toNat := by
    rw [UInt64.toNat_sub_of_le, hplace]
    rw [UInt64.le_iff_toNat_le, hplace]
    omega
  unfold Ring.writeChunk
  rw [h.sized]
  dsimp only
  split
  · rename_i hzero
    rw [hzero] at hspace
    have : size.toNat - (w - r) = 0 := hspace.symm
    omega
  · rw [hspace, hcontig]

/-- **A pass of the sender writes the next bytes of the stream, none of them over a byte that
was not read.** -/
theorem Carries.write (h : Carries stream size position w r ring)
    (hfine : Undisturbed size position stream.length) (hsize : 0 < size.toNat) {data rest : Bytes}
    (hdata : data ≠ []) (hstream : stream.drop w = data ++ rest) :
    Carries stream size position (w + ring.writeChunk data) r (ring.write data) ∧
      ∀ i, r ≤ i → i < w → (ring.write data).copySpace ((position.toNat + i) % size.toNat) =
        ring.copySpace ((position.toNat + i) % size.toNat) := by
  have hlength := congrArg List.length hstream
  rw [List.length_drop, List.length_append] at hlength
  have hpos : 0 < data.length := List.length_pos_iff.mpr hdata
  have hw : w < stream.length := by omega
  have hchunk := h.writeChunk hfine hsize data hw
  have hplace := hfine.place hw
  rw [← h.written] at hplace
  have hmod : (position.toNat + w) % size.toNat < size.toNat := Nat.mod_lt _ hsize
  generalize hn : ring.writeChunk data = n at *
  have hroom := h.room
  have hle := h.le
  have hspace : (ring.write data).copySpace = fun i =>
      if (position.toNat + w) % size.toNat ≤ i ∧ i < (position.toNat + w) % size.toNat + n then
        data.getD (i - (position.toNat + w) % size.toNat) 0
      else ring.copySpace i := by
    unfold Ring.write
    rw [h.sized, hplace, hn]
  -- a byte of this chunk
  have hnew : ∀ i, w ≤ i → i < w + n →
      (position.toNat + i) % size.toNat = (position.toNat + w) % size.toNat + (i - w) := by
    intro i hi hin
    have := add_mod_of_room (a := position.toNat + w) (c := size.toNat) (j := i - w) (by omega)
    rw [← this]
    congr 1
    omega
  -- a byte that is in the ring already
  have hold : ∀ i, r ≤ i → i < w →
      (ring.write data).copySpace ((position.toNat + i) % size.toNat) =
        ring.copySpace ((position.toNat + i) % size.toNat) := by
    intro i hi hiw
    rw [hspace]
    dsimp only
    refine if_neg ?_
    rintro ⟨hlow, hhigh⟩
    obtain ⟨j, hj⟩ : ∃ j, (position.toNat + i) % size.toNat =
        (position.toNat + w) % size.toNat + j := ⟨_, (Nat.add_sub_of_le hlow).symm⟩
    refine mod_ne_of_lt (a := position.toNat) (c := size.toNat) (i := i) (j := w + j)
      (by omega) (by omega) ?_
    rw [hj, hnew (w + j) (by omega) (by omega)]
    omega
  refine ⟨⟨h.sized, ?_, h.read, by omega, by omega, by omega, ?_⟩, hold⟩
  · show ring.totalWritten + UInt64.ofNat (ring.writeChunk data) = _
    rw [h.written, hn, UInt64.ofNat_add, ← UInt64.add_assoc]
  · intro i hi hin
    by_cases hiw : i < w
    · rw [hold i hi hiw]
      exact h.content i hi hiw
    · rw [hspace, hnew i (by omega) hin]
      dsimp only
      rw [if_pos ⟨by omega, by omega⟩, Nat.add_sub_cancel_left]
      have hget : stream.getD i 0 = (stream.drop w).getD (i - w) 0 := by
        rw [List.getD_eq_getElem?_getD, List.getD_eq_getElem?_getD, List.getElem?_drop]
        congr 2
        omega
      rw [hget, hstream, List.getD_eq_getElem?_getD, List.getD_eq_getElem?_getD,
        List.getElem?_append_left (by omega)]

/-- A pass of the receiver finds the bytes that are there, up to the end of the ring. -/
theorem Carries.readChunk (h : Carries stream size position w r ring)
    (hfine : Undisturbed size position stream.length) (hsize : 0 < size.toNat) (n : Nat) :
    ring.readChunk n = min (min n (w - r)) (size.toNat - (position.toNat + r) % size.toNat) := by
  have hunread := h.unread
  have hle := h.le
  have hlength := h.length
  unfold Ring.unread at hunread
  unfold Ring.readChunk
  rw [h.sized]
  dsimp only
  split
  · rename_i hzero
    rw [hzero] at hunread
    have : w - r = 0 := hunread.symm
    omega
  · rename_i hne
    have hr : r < stream.length := by
      by_contra hge
      have hnone : w - r = 0 := by omega
      rw [hnone] at hunread
      exact hne (UInt64.toNat_inj.mp hunread)
    have hplace := hfine.place hr
    rw [← h.read] at hplace
    have hmod : (position.toNat + r) % size.toNat < size.toNat := Nat.mod_lt _ hsize
    rw [hunread, UInt64.toNat_sub_of_le, hplace]
    rw [UInt64.le_iff_toNat_le, hplace]
    omega

/-- **A pass of the receiver reads the next bytes of the stream.** -/
theorem Carries.advanceRead (h : Carries stream size position w r ring)
    (hfine : Undisturbed size position stream.length) (hsize : 0 < size.toNat) (n : Nat) :
    ring.readBytes n = (stream.drop r).take (ring.readChunk n) ∧
      Carries stream size position w (r + ring.readChunk n) (ring.advanceRead n) := by
  have hchunk := h.readChunk hfine hsize n
  have hle := h.le
  have hlength := h.length
  have hroom := h.room
  have hcarries : Carries stream size position w (r + ring.readChunk n) (ring.advanceRead n) := by
    refine ⟨h.sized, h.written, ?_, by omega, by omega, hlength, ?_⟩
    · show ring.totalRead + UInt64.ofNat (ring.readChunk n) = _
      rw [h.read, UInt64.ofNat_add, ← UInt64.add_assoc]
    · intro i hi hiw
      exact h.content i (by omega) hiw
  refine ⟨?_, hcarries⟩
  unfold Ring.readBytes
  generalize ring.readChunk n = k at *
  refine List.ext_getElem ?_ ?_
  · rw [List.length_map, List.length_range, List.length_take, List.length_drop]
    omega
  · intro j hj hj'
    rw [List.length_map, List.length_range] at hj
    have hr : r < stream.length := by omega
    have hplace := hfine.place hr
    rw [← h.read] at hplace
    have hmod : (position.toNat + r) % size.toNat < size.toNat := Nat.mod_lt _ hsize
    rw [List.getElem_map, List.getElem_range, h.sized, hplace,
      ← add_mod_of_room (by omega), Nat.add_assoc, h.content (r + j) (by omega) (by omega),
      List.getElem_take, List.getElem_drop, List.getD_eq_getElem?_getD,
      List.getElem?_eq_getElem (by omega), Option.getD_some]

end

/-! ### Messages -/

theorem leNat_writeU32 {n : Nat} (h : n < 2 ^ 32) : leNat (writeU32 (UInt32.ofNat n)) = n := by
  rw [writeU32, UInt32.toNat_ofNat', Nat.mod_eq_of_lt h, leNat_leBytes_of_lt (by simpa using h)]

@[simp] theorem ShmPtr.bytes_length (p : ShmPtr) : p.bytes.length = 16 := by
  simp [ShmPtr.bytes]

theorem ShmPtr.ofBytes_bytes (p : ShmPtr) : ShmPtr.ofBytes p.bytes = p := by
  have h32 (v : UInt32) : UInt32.ofNat (leNat (writeU32 v)) = v := by
    rw [writeU32, leNat_leBytes_of_lt (by simpa using v.toNat_lt), UInt32.ofNat_toNat]
  have h64 (v : UInt64) : UInt64.ofNat (leNat (writeU64 v)) = v := by
    rw [writeU64, leNat_leBytes_of_lt (by simpa using v.toNat_lt), UInt64.ofNat_toNat]
  have hfirst : p.bytes.take 4 = writeU32 p.major := by
    rw [ShmPtr.bytes, List.append_assoc]
    exact List.take_left' (writeU32_length _)
  have hrest : p.bytes.drop 4 = writeU32 p.minor ++ writeU64 p.off := by
    rw [ShmPtr.bytes, List.append_assoc]
    exact List.drop_left' (writeU32_length _)
  have hlast : p.bytes.drop 8 = writeU64 p.off := by
    have hdrop : p.bytes.drop 8 = (p.bytes.drop 4).drop 4 := by rw [List.drop_drop]
    rw [hdrop, hrest]
    exact List.drop_left' (writeU32_length _)
  have hsecond : (p.bytes.drop 4).take 4 = writeU32 p.minor := by
    rw [hrest]
    exact List.take_left' (writeU32_length _)
  unfold ShmPtr.ofBytes
  rw [hfirst, hsecond, hlast, h32, h32, h64]

/-- What the receiver is to have of a bulk. -/
def Bulk.shmReceived (b : Bulk) : RecvBulk :=
  if b.desc.expose then .pointer b.shm
  else if b.desc.xfer then
    if b.shm.isNull then .bytes b.data else .pointer b.shm
  else .none

/-- **The receiver reads of a bulk what the sender wrote of it.** -/
theorem parse_recvBulkImpl (b : Bulk) (rest : Bytes) :
    (recvBulkImpl b.desc).parse ((shmBulk b).flatten ++ rest) = some (b.shmReceived, rest) := by
  have hsize (b : Bulk) : b.data.length = b.desc.size := rfl
  unfold recvBulkImpl shmBulk Bulk.shmReceived
  by_cases hexpose : b.desc.expose = true
  · rw [if_pos hexpose, if_pos hexpose, if_pos hexpose, List.flatten_singleton,
      Reading.parse_read_append _ b.shm.bytes_length, Reading.parse_done, ShmPtr.ofBytes_bytes]
  rw [if_neg hexpose, if_neg hexpose, if_neg hexpose]
  by_cases hxfer : b.desc.xfer = true
  · rw [if_pos hxfer, if_pos hxfer, if_pos hxfer]
    by_cases hnull : b.shm.isNull = true
    · rw [if_pos hnull, if_pos hnull, List.flatten_cons, List.flatten_singleton, List.append_assoc,
        Reading.parse_read_append _ b.shm.bytes_length, ShmPtr.ofBytes_bytes, if_pos hnull,
        Reading.parse_read_append _ (hsize b), Reading.parse_done]
    · rw [if_neg hnull, if_neg hnull, List.flatten_singleton,
        Reading.parse_read_append _ b.shm.bytes_length, ShmPtr.ofBytes_bytes, if_neg hnull,
        Reading.parse_done]
  · rw [if_neg hxfer, if_neg hxfer, if_neg hxfer]
    rfl

theorem parse_recvBulksImpl (bs : List Bulk) (rest : Bytes) :
    (recvBulksImpl (bs.map Bulk.desc)).parse ((bs.flatMap shmBulk).flatten ++ rest) =
      some (bs.map Bulk.shmReceived, rest) := by
  induction bs with
  | nil => rfl
  | cons b bs ih =>
    rw [List.map_cons, recvBulksImpl, List.flatMap_cons, List.flatten_append, List.append_assoc,
      Reading.parse_bind, parse_recvBulkImpl, Option.bind_some, Reading.parse_bind, ih]
    rfl

section

variable {P : Type} (C : Codec P)

/-- A message on the stream. -/
def shmEncode (m : Message P) : Bytes :=
  (shmBuffers C m).flatten

/-- What the receiver is to have of a message. -/
def Message.shmReceived (m : Message P) : ShmReceived P :=
  ⟨m.payload, m.send.map Bulk.desc, m.send.map Bulk.shmReceived⟩

variable {C}

/-- **`Recv` takes a message off the stream as `Send` put it there.** -/
theorem parse_shmRecv {m : Message P} (hsound : C.Sound m) (rest : Bytes) :
    (shmRecv C).parse (shmEncode C m ++ rest) = some (some m.shmReceived, rest) := by
  unfold shmRecv shmEncode shmBuffers
  rw [List.flatten_cons, List.flatten_cons, List.append_assoc, List.append_assoc,
    Reading.parse_read_append _ (writeU32_length _),
    Reading.parse_read_append _ (leNat_writeU32 hsound.short).symm, hsound.reads]
  dsimp only
  rw [Reading.parse_bind, parse_recvBulksImpl]
  rfl

/-! ### Both sides -/

variable (C) in
/-- All that is sent. -/
def shmStream (msgs : List (Message P)) : Bytes :=
  (msgs.flatMap (shmBuffers C)).flatten

theorem shmStream_cons (m : Message P) (msgs : List (Message P)) :
    shmStream C (m :: msgs) = shmEncode C m ++ shmStream C msgs := by
  rw [shmStream, List.flatMap_cons, List.flatten_append]
  rfl

theorem skipEmpty_flatten (bufs : List Bytes) : (skipEmpty bufs).flatten = bufs.flatten := by
  unfold skipEmpty
  induction bufs with
  | nil => rfl
  | cons data bufs ih =>
    cases data with
    | nil => exact ih
    | cons b data => rfl

theorem skipEmpty_head (bufs : List Bytes) : ∀ data ∈ (skipEmpty bufs).head?, data ≠ [] := by
  intro data hdata hnil
  subst hnil
  have := List.head?_dropWhile_not List.isEmpty bufs
  unfold skipEmpty at hdata
  rw [Option.mem_def.mp hdata] at this
  exact Bool.noConfusion this

variable (C) in
/-- What the receiver makes of the bytes it has not looked at: the next of the messages that
are left, with the others behind it. -/
def Expects : List (Message P) → Reading (Option (ShmReceived P)) → Bytes → Prop
  | [], _, bs => bs = []
  | m :: left, reading, bs =>
    reading.parse bs = some (some m.shmReceived, shmStream C left)

theorem expects_shmRecv {msgs : List (Message P)} (hsound : ∀ m ∈ msgs, C.Sound m) :
    Expects C msgs (shmRecv C) (shmStream C msgs) := by
  cases msgs with
  | nil => rfl
  | cons m msgs =>
    rw [shmStream_cons]
    exact parse_shmRecv (hsound m List.mem_cons_self) _

/-- `w` bytes of the stream were written and `r` bytes read; `done` were returned and `left`
are to come. -/
structure Streaming (C : Codec P) (size position : UInt64) (msgs done left : List (Message P))
    (w r : Nat) (s : Shm P) : Prop where
  split : msgs = done ++ left
  carries : Carries (shmStream C msgs) size position w r s.ring
  pending : s.pending.flatten = (shmStream C msgs).drop w
  next : ∀ data ∈ s.pending.head?, data ≠ []
  results : s.results = done.map fun m => some m.shmReceived
  waits : ∃ n k, s.reading = .read n k ∧ s.got.length < n
  expects : Expects C left s.reading (s.got ++ (shmStream C msgs).drop r)

section

variable {size position : UInt64} {msgs done left : List (Message P)} {w r : Nat} {s : Shm P}

theorem streaming_start (space : Nat → UInt8) (hsound : ∀ m ∈ msgs, C.Sound m) :
    Streaming C size position msgs [] msgs 0 0 (Shm.start C size position space msgs) where
  split := rfl
  carries := by
    have hzero : position = position + UInt64.ofNat 0 := (UInt64.add_zero position).symm
    exact ⟨rfl, hzero, hzero, le_rfl, Nat.zero_le _, Nat.zero_le _, fun i _ hi => absurd hi (by omega)⟩
  pending := skipEmpty_flatten _
  next := skipEmpty_head _
  results := rfl
  waits := ⟨_, _, rfl, Nat.zero_lt_succ 3⟩
  expects := expects_shmRecv hsound

/-- **A pass of the sender**, with bytes to write. -/
theorem Streaming.sendStep (h : Streaming C size position msgs done left w r s)
    (hfine : Undisturbed size position (shmStream C msgs).length) (hsize : 0 < size.toNat)
    {data : Bytes} {rest : List Bytes} (hpending : s.pending = data :: rest) :
    Streaming C size position msgs done left (w + s.ring.writeChunk data) r s.sendStep := by
  have hstream := h.pending
  rw [hpending, List.flatten_cons] at hstream
  have hdata : data ≠ [] := h.next data (by rw [hpending]; rfl)
  have hcarries := (h.carries.write hfine hsize hdata hstream.symm).1
  have hchunk : s.ring.writeChunk data ≤ data.length := by
    have hpos : 0 < data.length := List.length_pos_iff.mpr hdata
    have hlength := congrArg List.length hstream
    rw [List.length_append, List.length_drop] at hlength
    rw [h.carries.writeChunk hfine hsize data (by omega)]
    exact le_trans (Nat.min_le_left _ _) (Nat.min_le_left _ _)
  have hstep : s.sendStep = { s with
      ring := s.ring.write data
      pending := skipEmpty (data.drop (s.ring.writeChunk data) :: rest) } := by
    unfold Shm.sendStep
    rw [hpending]
  rw [hstep]
  refine ⟨h.split, hcarries, ?_, skipEmpty_head _, h.results, h.waits, h.expects⟩
  rw [skipEmpty_flatten, List.flatten_cons, ← List.drop_append_of_le_length hchunk, hstream,
    List.drop_drop]

/-- **A pass of the receiver.**  It may complete the message it is at. -/
theorem Streaming.recvStep (h : Streaming C size position msgs done left w r s)
    (hfine : Undisturbed size position (shmStream C msgs).length) (hsize : 0 < size.toNat)
    (hsound : ∀ m ∈ msgs, C.Sound m) {n : Nat} {k : Bytes → Reading (Option (ShmReceived P))}
    (hreading : s.reading = .read n k) :
    ∃ done' left', Streaming C size position msgs done' left' w
      (r + s.ring.readChunk (n - s.got.length)) (s.recvStep C) := by
  obtain ⟨hbytes, hcarries⟩ := h.carries.advanceRead hfine hsize (n - s.got.length)
  have hchunk := h.carries.readChunk hfine hsize (n - s.got.length)
  generalize hc : s.ring.readChunk (n - s.got.length) = c at *
  have hstep : s.recvStep C = Shm.resume C { s with ring := s.ring.advanceRead (n - s.got.length) }
      (.read n k) (s.got ++ s.ring.readBytes (n - s.got.length)) := by
    unfold Shm.recvStep
    rw [hreading]
  have hwaits : s.got.length < n := by
    obtain ⟨n', k', hreading', hlt⟩ := h.waits
    rw [hreading] at hreading'
    injection hreading' with hn _
    omega
  -- the bytes of this pass belong to the request
  have hholds : (Reading.read n k).Holds (s.got ++ s.ring.readBytes (n - s.got.length)) := by
    show (s.got ++ s.ring.readBytes (n - s.got.length)).length ≤ n
    rw [hbytes, List.length_append, List.length_take]
    omega
  have hexpects : Expects C left (.read n k) (s.got ++ s.ring.readBytes (n - s.got.length) ++
      (shmStream C msgs).drop (r + c)) := by
    have hall : s.ring.readBytes (n - s.got.length) ++ (shmStream C msgs).drop (r + c) =
        (shmStream C msgs).drop r := by
      rw [hbytes, ← List.drop_drop, List.take_append_drop]
    rw [List.append_assoc, hall, ← hreading]
    exact h.expects
  have hsettle := Reading.parse_settle _ hholds ((shmStream C msgs).drop (r + c))
  rw [hstep]
  unfold Shm.resume
  generalize hgot : s.got ++ s.ring.readBytes (n - s.got.length) = got at *
  rcases Reading.settle_cases _ hholds with ⟨a, hdone⟩ | ⟨n', k', hread, hlt⟩
  · -- `Recv` returns: the message was complete, and the next one follows it
    rw [hdone, Reading.parse_done, List.nil_append] at hsettle
    cases left with
    | nil =>
      have hnil : got = [] := (List.append_eq_nil_iff.mp hexpects).1
      rw [hnil, Reading.settle, if_neg (by simp; omega)] at hdone
      cases hdone
    | cons m left =>
      rw [Expects, ← hsettle] at hexpects
      obtain ⟨rfl, hrest⟩ := Prod.ext_iff.mp (Option.some.inj hexpects)
      refine ⟨done ++ [m], left, ?_⟩
      rw [hdone]
      have hsplit : msgs = (done ++ [m]) ++ left := by
        rw [h.split, List.append_assoc]
        rfl
      refine ⟨hsplit, hcarries, h.pending, h.next, ?_, ⟨_, _, rfl, Nat.zero_lt_succ 3⟩, ?_⟩
      · show s.results ++ [some m.shmReceived] = _
        rw [h.results, List.map_append]
        rfl
      · show Expects C left (shmRecv C) ([] ++ (shmStream C msgs).drop (r + c))
        rw [List.nil_append, show (shmStream C msgs).drop (r + c) = shmStream C left from hrest]
        refine expects_shmRecv fun m' hm' => hsound m' ?_
        rw [hsplit]
        exact List.mem_append_right _ hm'
  · -- it waits for more
    refine ⟨done, left, ?_⟩
    generalize hout : (Reading.read n k).settle got = out at *
    obtain ⟨reading, got'⟩ := out
    obtain rfl : reading = .read n' k' := hread
    refine ⟨h.split, hcarries, h.pending, h.next, h.results, ⟨n', k', rfl, hlt⟩, ?_⟩
    show Expects C left (.read n' k') (got' ++ (shmStream C msgs).drop (r + c))
    cases left with
    | nil =>
      have hnil := List.append_eq_nil_iff.mp hexpects
      rw [hnil.1, Reading.settle, if_neg (by simp; omega)] at hout
      obtain rfl : [] = got' := (Prod.ext_iff.mp hout).2
      exact hnil.2
    | cons m left => exact hsettle.trans hexpects

/-! ### Progress -/

/-- Bytes to be moved: one that is not written is moved twice. -/
def Shm.toMove (s : Shm P) : Nat :=
  2 * s.pending.flatten.length + s.ring.unread

theorem Streaming.toMove (h : Streaming C size position msgs done left w r s) :
    s.toMove = 2 * ((shmStream C msgs).length - w) + (w - r) := by
  rw [Shm.toMove, h.pending, List.length_drop, h.carries.unread]

theorem Ring.write_zero {ring : Ring} {data : Bytes} (h : ring.writeChunk data = 0) :
    ring.write data = ring := by
  unfold Ring.write
  rw [h]
  have hspace : ∀ i, ¬ ((ring.totalWritten % ring.copySpaceSize).toNat ≤ i ∧
      i < (ring.totalWritten % ring.copySpaceSize).toNat + 0) := fun i hi => by omega
  simp only [hspace, if_false]
  rw [show UInt64.ofNat 0 = 0 from rfl, UInt64.add_zero]

theorem Ring.advanceRead_zero {ring : Ring} {n : Nat} (h : ring.readChunk n = 0) :
    ring.advanceRead n = ring ∧ ring.readBytes n = [] := by
  unfold Ring.advanceRead Ring.readBytes
  rw [h, show UInt64.ofNat 0 = 0 from rfl, UInt64.add_zero]
  exact ⟨rfl, rfl⟩

/-- A pass finds nothing to do and changes nothing, or it moves bytes. -/
theorem Streaming.sendStep_cases (h : Streaming C size position msgs done left w r s)
    (hfine : Undisturbed size position (shmStream C msgs).length) (hsize : 0 < size.toNat) :
    (s.sendStep = s ∧ (w < (shmStream C msgs).length → w = r + size.toNat)) ∨
      s.sendStep.toMove < s.toMove ∧
        ∃ w', Streaming C size position msgs done left w' r s.sendStep := by
  have hroom := h.carries.room
  cases hpending : s.pending with
  | nil =>
    refine Or.inl ⟨by rw [Shm.sendStep, hpending], ?_⟩
    intro hw
    have hnone := h.pending
    rw [hpending, List.flatten_nil] at hnone
    have := List.drop_eq_nil_iff.mp hnone.symm
    omega
  | cons data rest =>
    have hstep := h.sendStep hfine hsize hpending
    have hdata : data ≠ [] := h.next data (by rw [hpending]; rfl)
    have hpos : 0 < data.length := List.length_pos_iff.mpr hdata
    have hlength := congrArg List.length h.pending
    rw [hpending, List.flatten_cons, List.length_append, List.length_drop] at hlength
    have hchunk := h.carries.writeChunk hfine hsize data (by omega)
    have hmod : (position.toNat + w) % size.toNat < size.toNat := Nat.mod_lt _ hsize
    have hle := h.carries.le
    by_cases hzero : s.ring.writeChunk data = 0
    · refine Or.inl ⟨?_, fun _ => by omega⟩
      unfold Shm.sendStep
      rw [hpending]
      dsimp only
      obtain ⟨b, bs, rfl⟩ := List.exists_cons_of_ne_nil hdata
      rw [Ring.write_zero hzero, hzero, List.drop_zero]
      exact congrArg (fun pending => { s with pending := pending }) hpending.symm
    · have hwritten := hstep.carries.length
      refine Or.inr ⟨?_, _, hstep⟩
      rw [h.toMove, hstep.toMove]
      omega

theorem Streaming.recvStep_cases (h : Streaming C size position msgs done left w r s)
    (hfine : Undisturbed size position (shmStream C msgs).length) (hsize : 0 < size.toNat)
    (hsound : ∀ m ∈ msgs, C.Sound m) :
    (s.recvStep C = s ∧ w = r) ∨ (s.recvStep C).toMove < s.toMove ∧
      ∃ done' left' r', Streaming C size position msgs done' left' w r' (s.recvStep C) := by
  obtain ⟨n, k, hreading, hgot⟩ := h.waits
  obtain ⟨done', left', hstep⟩ := h.recvStep hfine hsize hsound hreading
  have hchunk := h.carries.readChunk hfine hsize (n - s.got.length)
  have hmod : (position.toNat + r) % size.toNat < size.toNat := Nat.mod_lt _ hsize
  have hle := h.carries.le
  by_cases hzero : s.ring.readChunk (n - s.got.length) = 0
  · refine Or.inl ⟨?_, by omega⟩
    obtain ⟨hring, hbytes⟩ := Ring.advanceRead_zero hzero
    unfold Shm.recvStep
    rw [hreading]
    dsimp only
    rw [hring, hbytes, List.append_nil, Shm.resume, Reading.settle, if_neg (by omega)]
    exact congrArg (fun reading => { s with reading := reading }) hreading.symm
  · have hread := hstep.carries.le
    refine Or.inr ⟨?_, _, _, _, hstep⟩
    rw [h.toMove, hstep.toMove]
    omega

/-- Nothing is to be moved exactly when every message was returned. -/
theorem Streaming.toMove_eq_zero_iff (h : Streaming C size position msgs done left w r s) :
    s.toMove = 0 ↔ left = [] := by
  have hle := h.carries.le
  have hlength := h.carries.length
  rw [h.toMove]
  constructor
  · intro hzero
    have hexpects := h.expects
    obtain ⟨n, k, hreading, hgot⟩ := h.waits
    rw [List.drop_eq_nil_of_le (by omega), List.append_nil, hreading] at hexpects
    cases left with
    | nil => rfl
    | cons m left =>
      rw [Expects, Reading.parse_read, if_neg (by omega)] at hexpects
      cases hexpects
  · intro hleft
    subst hleft
    have hnil := (List.append_eq_nil_iff.mp h.expects).2
    have := List.drop_eq_nil_iff.mp hnil
    omega

end

/-! ### Runs -/

/-- The invariant of a run. -/
def Flowing (C : Codec P) (size position : UInt64) (msgs : List (Message P)) (s : Shm P) : Prop :=
  ∃ done left w r, Streaming C size position msgs done left w r s

section

variable {size position : UInt64} {msgs : List (Message P)} {s : Shm P}

theorem Flowing.step (h : Flowing C size position msgs s)
    (hfine : Undisturbed size position (shmStream C msgs).length) (hsize : 0 < size.toNat)
    (hsound : ∀ m ∈ msgs, C.Sound m) (side : Side) :
    s.step C side = s ∨
      (s.step C side).toMove < s.toMove ∧ Flowing C size position msgs (s.step C side) := by
  obtain ⟨done, left, w, r, h⟩ := h
  cases side with
  | sender =>
    rcases h.sendStep_cases hfine hsize with ⟨hidle, -⟩ | ⟨hless, w', hstep⟩
    · exact Or.inl hidle
    · exact Or.inr ⟨hless, _, _, _, _, hstep⟩
  | receiver =>
    rcases h.recvStep_cases hfine hsize hsound with ⟨hidle, -⟩ | ⟨hless, done', left', r', hstep⟩
    · exact Or.inl hidle
    · exact Or.inr ⟨hless, _, _, _, _, hstep⟩

/-- One of the sides can go on until every message was returned. -/
theorem Flowing.busy (h : Flowing C size position msgs s)
    (hfine : Undisturbed size position (shmStream C msgs).length) (hsize : 0 < size.toNat)
    (hsound : ∀ m ∈ msgs, C.Sound m) (hmove : 0 < s.toMove) : ∃ side, s.step C side ≠ s := by
  obtain ⟨done, left, w, r, h⟩ := h
  have hlength := h.carries.length
  have htoMove := h.toMove
  by_contra hidle
  have hstay : ∀ side, s.step C side = s := by simpa using hidle
  rcases h.recvStep_cases hfine hsize hsound with ⟨-, hr⟩ | ⟨hless, -⟩
  · rcases h.sendStep_cases hfine hsize with ⟨-, hw⟩ | ⟨hless, -⟩
    · have := fun hlt => hw hlt
      omega
    · have hsender : s.sendStep = s := hstay .sender
      rw [hsender] at hless
      omega
  · have hreceiver : s.recvStep C = s := hstay .receiver
    rw [hreceiver] at hless
    omega

theorem Flowing.run (h : Flowing C size position msgs s)
    (hfine : Undisturbed size position (shmStream C msgs).length) (hsize : 0 < size.toNat)
    (hsound : ∀ m ∈ msgs, C.Sound m) (sides : List Side) :
    Flowing C size position msgs (s.run C sides) ∧ (s.run C sides).toMove ≤ s.toMove := by
  induction sides generalizing s with
  | nil => exact ⟨h, le_rfl⟩
  | cons side sides ih =>
    rw [Shm.run]
    rcases h.step hfine hsize hsound side with hidle | ⟨hless, hstep⟩
    · rw [hidle]
      exact ih h
    · obtain ⟨hrun, hle⟩ := ih hstep
      exact ⟨hrun, le_trans hle (Nat.le_of_lt hless)⟩

/-- A side that can go on goes on when its turn comes, or the other one has by then. -/
theorem Flowing.run_lt (h : Flowing C size position msgs s)
    (hfine : Undisturbed size position (shmStream C msgs).length) (hsize : 0 < size.toNat)
    (hsound : ∀ m ∈ msgs, C.Sound m) {side : Side} (hbusy : s.step C side ≠ s) {sides : List Side}
    (hturn : side ∈ sides) : (s.run C sides).toMove < s.toMove := by
  induction sides with
  | nil => cases hturn
  | cons first sides ih =>
    rw [Shm.run]
    rcases h.step hfine hsize hsound first with hidle | ⟨hless, hstep⟩
    · rw [hidle]
      refine ih ((List.mem_cons.mp hturn).resolve_left ?_)
      intro heq
      exact hbusy (heq ▸ hidle)
    · exact lt_of_le_of_lt (hstep.run hfine hsize hsound sides).2 hless

theorem Shm.run_append (s : Shm P) (sides sides' : List Side) :
    s.run C (sides ++ sides') = (s.run C sides).run C sides' := by
  induction sides generalizing s with
  | nil => rfl
  | cons side sides ih => exact ih _

/-- Both sides take a turn in every round: each round moves bytes, so enough rounds move all. -/
theorem Flowing.run_rounds (h : Flowing C size position msgs s)
    (hfine : Undisturbed size position (shmStream C msgs).length) (hsize : 0 < size.toNat)
    (hsound : ∀ m ∈ msgs, C.Sound m) {rounds : List (List Side)}
    (hfair : ∀ round ∈ rounds, ∀ side, side ∈ round) :
    (s.run C rounds.flatten).toMove ≤ s.toMove - rounds.length := by
  induction rounds generalizing s with
  | nil => exact le_rfl
  | cons round rounds ih =>
    rw [List.flatten_cons, Shm.run_append, List.length_cons]
    obtain ⟨hflowing, hle⟩ := h.run hfine hsize hsound round
    have hrest := ih hflowing fun x hx => hfair x (List.mem_cons_of_mem _ hx)
    rcases Nat.eq_zero_or_pos s.toMove with hzero | hpos
    · omega
    · obtain ⟨side, hbusy⟩ := h.busy hfine hsize hsound hpos
      have := h.run_lt hfine hsize hsound hbusy (hfair round List.mem_cons_self side)
      omega

/-- Where byte `i` of those that were not read is. -/
def Ring.unreadPlace (ring : Ring) (i : Nat) : Nat :=
  ((ring.totalRead + UInt64.ofNat i) % ring.copySpaceSize).toNat

/-- The sender does not write over a byte that was not read. -/
theorem Streaming.keeps_unread {done left : List (Message P)} {w r : Nat}
    (h : Streaming C size position msgs done left w r s)
    (hfine : Undisturbed size position (shmStream C msgs).length) (hsize : 0 < size.toNat)
    {i : Nat} (hi : i < s.ring.unread) :
    s.sendStep.ring.copySpace (s.ring.unreadPlace i) =
      s.ring.copySpace (s.ring.unreadPlace i) := by
  rw [h.carries.unread] at hi
  have hlength := h.carries.length
  have hplace : s.ring.unreadPlace i = (position.toNat + (r + i)) % size.toNat := by
    rw [Ring.unreadPlace, h.carries.read, h.carries.sized, UInt64.add_assoc, ← UInt64.ofNat_add]
    exact hfine.place (by omega)
  rw [hplace]
  cases hpending : s.pending with
  | nil => rw [Shm.sendStep, hpending]
  | cons data rest =>
    have hdata : data ≠ [] := h.next data (by rw [hpending]; rfl)
    have hstream := h.pending
    rw [hpending, List.flatten_cons] at hstream
    have hring : s.sendStep.ring = s.ring.write data := by rw [Shm.sendStep, hpending]
    rw [hring]
    exact (h.carries.write hfine hsize hdata hstream.symm).2 (r + i) (by omega) (by omega)

end

end

/-- **The shared-memory transport is a lossless byte stream.**  Whatever the interleaving, `Recv`
has returned the first messages as they were sent, the next pass of the sender leaves the
unread bytes of the ring, and rounds in which both sides take a turn deliver every message. -/
theorem shm_lossless {P : Type} (C : Codec P) {size position : UInt64} (space : Nat → UInt8)
    {msgs : List (Message P)} (hsize : 0 < size) (hsound : ∀ m ∈ msgs, C.Sound m)
    (hfine : Undisturbed size position (shmStream C msgs).length) :
    (∀ sides, ∃ s, (Shm.start C size position space msgs).run C sides = s ∧
      s.results <+: msgs.map (fun m => some m.shmReceived) ∧
      ∀ i < s.ring.unread, (s.step C .sender).ring.copySpace (s.ring.unreadPlace i) =
        s.ring.copySpace (s.ring.unreadPlace i)) ∧
    ∀ rounds : List (List Side), (∀ round ∈ rounds, ∀ side, side ∈ round) →
      2 * (shmStream C msgs).length ≤ rounds.length →
      ((Shm.start C size position space msgs).run C rounds.flatten).results =
        msgs.map fun m => some m.shmReceived := by
  have hpos : 0 < size.toNat := UInt64.lt_iff_toNat_lt.mp hsize
  have hstreaming : Streaming C size position msgs [] msgs 0 0 _ := streaming_start space hsound
  have hstart : Flowing C size position msgs (Shm.start C size position space msgs) :=
    ⟨_, _, _, _, hstreaming⟩
  refine ⟨fun sides => ⟨_, rfl, ?_⟩, fun rounds hfair henough => ?_⟩
  · obtain ⟨done, left, w, r, h⟩ := (hstart.run hfine hpos hsound sides).1
    refine ⟨⟨left.map fun m => some m.shmReceived, ?_⟩, fun i hi => h.keeps_unread hfine hpos hi⟩
    rw [h.results, ← List.map_append, ← h.split]
  · obtain ⟨done, left, w, r, h⟩ := (hstart.run hfine hpos hsound rounds.flatten).1
    have hmoved := hstart.run_rounds hfine hpos hsound hfair
    have hall : (Shm.start C size position space msgs).toMove = 2 * (shmStream C msgs).length := by
      rw [hstreaming.toMove]
      omega
    have hleft : left = [] := h.toMove_eq_zero_iff.mp (by omega)
    rw [h.results, h.split, hleft, List.append_nil]

/-- A serialization: the number of bulks, a size and flags for each of them, and the payload. -/
def tableCodec : Codec Bytes where
  ser payload descs :=
    UInt8.ofNat descs.length ::
      descs.flatMap (fun d => [UInt8.ofNat d.size, UInt8.ofNat d.flags.toNat]) ++ payload
  de
    | [] => none
    | n :: bs => some (bs.drop (2 * n.toNat), (List.range n.toNat).map fun i =>
      ⟨(bs.getD (2 * i) 0).toNat, UInt32.ofNat (bs.getD (2 * i + 1) 0).toNat⟩)

/-- A ring of four bytes whose counters wrap, and a message with bytes that are copied and
bytes that are exposed. -/
theorem shm_lossless_ring_of_four :
    ((Shm.start tableCodec 4 (0 - 6) (fun _ => 0)
        [⟨[20], [⟨[1, 2], ⟨0xffffffff, 0xffffffff, 0⟩, bulkXfer⟩, ⟨[3], ⟨1, 0, 64⟩, bulkExpose⟩]⟩]).run
      tableCodec (List.replicate 100 [Side.sender, Side.receiver]).flatten).results =
    [some ⟨[20], [⟨2, bulkXfer⟩, ⟨1, bulkExpose⟩], [.bytes [1, 2], .pointer ⟨1, 0, 64⟩]⟩] := by
  refine (shm_lossless tableCodec (fun _ => 0) (by decide) ?_ (Or.inl (by decide))).2 _ ?_ (by decide)
  · intro m hm
    rw [List.mem_singleton.mp hm]
    exact ⟨rfl, by decide⟩
  · intro round hround side
    rw [List.eq_of_mem_replicate hround]
    cases side
    · exact List.mem_cons_self
    · exact List.mem_cons_of_mem _ List.mem_cons_self

/-- **Three does not divide `2 ^ 64`.**  The counters wrap inside a chunk, the next byte goes to
the place of one that was not read, and `Recv` returns a message that was not sent. -/
theorem not_lossless_at_wrap :
    tableCodec.Sound ⟨[20, 30, 40], []⟩ ∧
      ((Shm.start tableCodec 3 (0 - 6) (fun _ => 0) [⟨[20, 30, 40], []⟩]).run tableCodec
        [.sender, .sender, .receiver, .receiver, .sender, .receiver, .sender, .sender, .receiver,
          .sender, .receiver]).results = [some ⟨[20, 40, 0], [], []⟩] :=
  ⟨⟨rfl, by decide⟩, by decide +kernel⟩

end Lightbeam
end IowarpCore
