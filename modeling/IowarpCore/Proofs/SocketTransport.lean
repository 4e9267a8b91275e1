/-
Socket framing and the pieces the stream arrives in.

However the stream is cut and whenever the pieces arrive, `RecvExact` returns the next
bytes of the stream, or `EAGAIN` with nothing taken (`recvExact_spec`).  The length prefix
may report that to the caller, and the bulks wait for more; the metadata takes it for an
error.  So `Recv` depends on the cut in one way only: a piece that ends with a length
prefix leaves the metadata to a socket that may be empty.
-/
import IowarpCore.Lightbeam.SocketTransport

namespace IowarpCore
namespace Lightbeam

/-! ### Sending -/

theorem flatten_advance (n : Nat) (iov : List Bytes) : (advance n iov).flatten = iov.flatten.drop n := by
  induction iov generalizing n with
  | nil => simp [advance]
  | cons b iov ih =>
    unfold advance
    split
    · rename_i hle
      rw [ih, List.flatten_cons, List.drop_append, List.drop_eq_nil_of_le hle, List.nil_append]
    · rename_i hlt
      rw [List.flatten_cons, List.flatten_cons, List.drop_append_of_le_length (by omega)]

/-- What was written is the front of the buffers, whatever each `writev` took. -/
theorem sendVLoop_some {total : Nat} {accepts : List Nat} {iov : List Bytes} {sent : Nat}
    {out bytes : Bytes} (h : sendVLoop total accepts iov sent out = some bytes) :
    ∃ n ≤ iov.flatten.length, bytes = out ++ iov.flatten.take n ∧ total ≤ sent + n := by
  induction accepts generalizing iov sent out with
  | nil =>
    unfold sendVLoop at h
    split at h
    · obtain rfl := Option.some.inj h
      exact ⟨0, Nat.zero_le _, by simp, by omega⟩
    · cases h
  | cons a accepts ih =>
    unfold sendVLoop at h
    split at h
    · obtain rfl := Option.some.inj h
      exact ⟨0, Nat.zero_le _, by simp, by omega⟩
    · obtain ⟨n, hn, hbytes, htotal⟩ := ih h
      rw [flatten_advance, List.length_drop] at hn
      refine ⟨min a iov.flatten.length + n, by omega, ?_, by omega⟩
      rw [hbytes, flatten_advance, List.append_assoc, ← List.take_add]

/-- `writev` calls that take everything at once. -/
theorem sendVLoop_all (iov : List Bytes) :
    sendVLoop iov.flatten.length [iov.flatten.length] iov 0 [] = some iov.flatten := by
  unfold sendVLoop
  split
  · rename_i hzero
    rw [List.eq_nil_of_length_eq_zero (Nat.le_zero.mp hzero)]
  · dsimp only
    rw [Nat.min_self, List.take_length, Nat.zero_add, List.nil_append]
    unfold sendVLoop
    rw [if_pos (Nat.le_refl _)]

/-- The buffers behind the 64th are empty. -/
def Fits (iov : List Bytes) : Prop :=
  (iov.drop 64).flatten = []

/-- **`SendV` puts all buffers on the connection when it returns, and it can return exactly
if the buffers behind the 64th are empty.** -/
theorem sendV_returns_iff (iov : List Bytes) :
    (∀ accepts bytes, sendV accepts iov = some bytes → bytes = iov.flatten) ∧
      ((∃ accepts, sendV accepts iov = some iov.flatten) ↔ Fits iov) := by
  have hsplit : iov.flatten = (iov.take 64).flatten ++ (iov.drop 64).flatten := by
    rw [← List.flatten_append, List.take_append_drop]
  have hreturned {accepts : List Nat} {bytes : Bytes} (h : sendV accepts iov = some bytes) :
      Fits iov ∧ bytes = iov.flatten := by
    obtain ⟨n, hn, hbytes, htotal⟩ := sendVLoop_some h
    have hlength := congrArg List.length hsplit
    rw [List.length_append] at hlength
    have hfits : (iov.drop 64).flatten = [] := List.eq_nil_of_length_eq_zero (by omega)
    refine ⟨hfits, ?_⟩
    rw [hbytes, hsplit, hfits, List.nil_append, List.append_nil, List.take_of_length_le (by omega)]
  refine ⟨fun accepts bytes h => (hreturned h).2, ⟨?_, ?_⟩⟩
  · rintro ⟨accepts, h⟩
    exact (hreturned h).1
  intro hfits
  have hflat : iov.flatten = (iov.take 64).flatten := by
    rw [hsplit, hfits, List.append_nil]
  refine ⟨[iov.flatten.length], ?_⟩
  unfold sendV
  rw [hflat]
  exact sendVLoop_all _

/-! ### The next bytes of the stream -/

section

variable {pieces : List Bytes} {c len : Nat} {s s' : Socket}

/-- The receiver has taken the first `c` bytes of the pieces. -/
def Took (pieces : List Bytes) (c : Nat) (s : Socket) : Prop :=
  ∃ k, s.pieces = pieces.drop k ∧ c ≤ (pieces.take k).flatten.length ∧
    s.readable = (pieces.take k).flatten.drop c

theorem took_start (pieces : List Bytes) (schedule : List Nat) :
    Took pieces 0 ⟨[], pieces, schedule⟩ :=
  ⟨0, rfl, Nat.zero_le _, rfl⟩

theorem Took.unread (h : Took pieces c s) : s.unread = pieces.flatten.drop c := by
  obtain ⟨k, hpieces, hle, hreadable⟩ := h
  rw [Socket.unread, hpieces, hreadable, ← List.drop_append_of_le_length hle,
    ← List.flatten_append, List.take_append_drop]

theorem Took.arrive (h : Took pieces c s) : Took pieces c s.arrive := by
  obtain ⟨k, hpieces, hle, hreadable⟩ := h
  have hmore : (pieces.take (k + s.schedule.headD 0)).flatten =
      (pieces.take k).flatten ++ ((pieces.drop k).take (s.schedule.headD 0)).flatten := by
    rw [List.take_add, List.flatten_append]
  refine ⟨k + s.schedule.headD 0, ?_, ?_, ?_⟩
  · show s.pieces.drop _ = _
    rw [hpieces, List.drop_drop]
  · rw [hmore, List.length_append]
    omega
  · show s.readable ++ (s.pieces.take _).flatten = _
    rw [hmore, hreadable, hpieces, List.drop_append_of_le_length hle]

/-- A piece that is readable stays readable until it is taken. -/
theorem arrive_readable_ne (h : s.readable ≠ []) : s.arrive.readable ≠ [] := by
  intro hnil
  exact h (List.append_eq_nil_iff.mp hnil).1

theorem Took.take (h : Took pieces c s) (len : Nat) :
    s.readable.take len = (pieces.flatten.drop c).take (s.readable.take len).length ∧
      Took pieces (c + (s.readable.take len).length)
        { s with readable := s.readable.drop len } := by
  have hunread := h.unread
  obtain ⟨k, hpieces, hle, hreadable⟩ := h
  have hlength : s.readable.length = (pieces.take k).flatten.length - c := by
    rw [hreadable, List.length_drop]
  constructor
  · rw [← hunread, Socket.unread, List.length_take, List.take_append_of_le_length (by omega)]
    exact (List.take_eq_take_min).trans (by simp)
  · refine ⟨k, hpieces, ?_, ?_⟩
    · rw [List.length_take]
      omega
    · show s.readable.drop len = _
      rw [← List.drop_drop, ← hreadable, List.length_take]
      by_cases hlen : len ≤ s.readable.length
      · rw [Nat.min_eq_left hlen]
      · rw [Nat.min_eq_right (by omega), List.drop_length, List.drop_eq_nil_of_le (by omega)]

/-- A `poll` finds bytes while there are any. -/
theorem Took.poll (h : Took pieces c s) (hpieces : ∀ p ∈ pieces, p ≠ [])
    (hmore : c < pieces.flatten.length) :
    ∃ s', s.pollRead = (true, s') ∧ Took pieces c s' ∧ s'.readable ≠ [] := by
  have hunread := h.unread
  unfold Socket.pollRead
  by_cases hreadable : s.readable = []
  · rw [if_neg (not_not_intro hreadable)]
    obtain ⟨k, hk, hle, hr⟩ := h
    cases hp : s.pieces with
    | nil =>
      rw [Socket.unread, hreadable, hp] at hunread
      have hnone : 0 = (pieces.flatten.drop c).length := congrArg List.length hunread
      rw [List.length_drop] at hnone
      omega
    | cons p rest =>
      refine ⟨_, rfl, ⟨k + 1, ?_, ?_, ?_⟩, ?_⟩
      · show rest = _
        rw [← List.drop_drop, ← hk, hp]
        rfl
      · rw [List.take_add, List.flatten_append, List.length_append]
        omega
      · show p = _
        rw [List.take_add, List.flatten_append, List.drop_append_of_le_length hle, ← hr,
          hreadable, ← hk, hp]
        simp
      · have hmem : p ∈ s.pieces := by rw [hp]; simp
        rw [hk] at hmem
        exact hpieces p (List.mem_of_mem_drop hmem)
  · rw [if_pos hreadable]
    exact ⟨s, rfl, h, hreadable⟩

/-- The loop of `RecvExact` with `got` received: it gets the rest, unless it has nothing
yet and there is nothing to read. -/
theorem recvExactLoop_spec (hpieces : ∀ p ∈ pieces, p ≠ []) (hlen : c + len ≤ pieces.flatten.length) :
    ∀ (fuel : Nat) (got : Bytes) (s : Socket), got = (pieces.flatten.drop c).take got.length →
      got.length ≤ len → Took pieces (c + got.length) s →
      (2 * (len - got.length) + 1 ≤ fuel ∨
        s.readable ≠ [] ∧ got.length < len ∧ 2 * (len - got.length) ≤ fuel) →
      (∃ s', recvExactLoop len fuel got s = (.ok, (pieces.flatten.drop c).take len, s') ∧
        Took pieces (c + len) s') ∨
      (got = [] ∧ 0 < len ∧ s.arrive.readable = [] ∧
        recvExactLoop len fuel got s = (.again, [], s.arrive)) := by
  intro fuel
  induction fuel with
  | zero =>
    intro got s _ _ _ hfuel
    omega
  | succ fuel ih =>
    intro got s hgot hle htook hfuel
    unfold recvExactLoop
    by_cases hdone : got.length ≥ len
    · rw [if_pos hdone]
      have heq : got.length = len := by omega
      refine Or.inl ⟨s, ?_, heq ▸ htook⟩
      rw [← heq, ← hgot]
    · rw [if_neg hdone]
      have harrived := htook.arrive
      by_cases hempty : s.arrive.readable = []
      · -- nothing to read: give up, or wait if the message is half received
        have hrecv : s.recv (len - got.length) = (none, s.arrive) := by
          unfold Socket.recv
          rw [if_pos hempty]
        rw [hrecv]
        dsimp only
        by_cases hnil : got = []
        · rw [if_pos hnil]
          subst hnil
          exact Or.inr ⟨rfl, Nat.pos_of_ne_zero (by simpa using hdone), hempty, rfl⟩
        · rw [if_neg hnil]
          obtain ⟨s₁, hpoll, htook₁, hreadable⟩ := harrived.poll hpieces (by omega)
          rw [hpoll]
          dsimp only
          have hfuel₁ : 2 * (len - got.length) ≤ fuel := by
            rcases hfuel with h | ⟨h, -⟩
            · omega
            · exact absurd hempty (arrive_readable_ne h)
          rcases ih got s₁ hgot hle htook₁ (Or.inr ⟨hreadable, by omega, hfuel₁⟩) with h | h
          · exact Or.inl h
          · exact absurd h.1 hnil
      · -- at least one byte is received
        have hrecv : s.recv (len - got.length) = (some (s.arrive.readable.take (len - got.length)),
            { s.arrive with readable := s.arrive.readable.drop (len - got.length) }) := by
          unfold Socket.recv
          rw [if_neg hempty]
        rw [hrecv]
        dsimp only
        obtain ⟨hbytes, htook₁⟩ := harrived.take (len - got.length)
        have hpos : 0 < s.arrive.readable.length := List.length_pos_iff.mpr hempty
        generalize hb : s.arrive.readable.take (len - got.length) = bytes at *
        have hblen : bytes.length = min (len - got.length) s.arrive.readable.length := by
          rw [← hb, List.length_take]
        have hgot₁ : got ++ bytes = (pieces.flatten.drop c).take (got ++ bytes).length := by
          rw [List.length_append, List.take_add, ← hgot, List.drop_drop, ← hbytes]
        rw [Nat.add_assoc, ← List.length_append] at htook₁
        rcases ih (got ++ bytes) _ hgot₁ (by rw [List.length_append]; omega) htook₁
          (Or.inl (by rw [List.length_append]; omega)) with h | h
        · exact Or.inl h
        · have := congrArg List.length h.1
          rw [List.length_append] at this
          have hzero : ([] : Bytes).length = 0 := rfl
          omega

/-- **`RecvExact` returns the next bytes of the stream, or `EAGAIN` with nothing taken and
nothing to read.** -/
theorem recvExact_spec (hpieces : ∀ p ∈ pieces, p ≠ []) (htook : Took pieces c s)
    (hlen : c + len ≤ pieces.flatten.length) :
    (∃ s', recvExact len s = (.ok, (pieces.flatten.drop c).take len, s') ∧
      Took pieces (c + len) s') ∨
    (0 < len ∧ s.arrive.readable = [] ∧ recvExact len s = (.again, [], s.arrive)) := by
  rcases recvExactLoop_spec hpieces hlen (2 * len + 1) [] s (by simp) (Nat.zero_le _) htook
    (Or.inl (by simp)) with h | h
  · exact Or.inl h
  · exact Or.inr h.2

/-- A bulk is waited for. -/
theorem recvBulk_spec (hpieces : ∀ p ∈ pieces, p ≠ []) (htook : Took pieces c s)
    (hlen : c + len ≤ pieces.flatten.length) :
    ∃ s', recvBulk len s = (.ok, (pieces.flatten.drop c).take len, s') ∧ Took pieces (c + len) s' := by
  unfold recvBulk recvBulkLoop
  rcases recvExact_spec hpieces htook hlen with ⟨s₁, hok, htook₁⟩ | ⟨hpos, hempty, hagain⟩
  · rw [hok]
    exact ⟨s₁, rfl, htook₁⟩
  · rw [hagain]
    dsimp only
    obtain ⟨s₁, hpoll, htook₁, hreadable⟩ := htook.arrive.poll hpieces (by omega)
    rw [hpoll]
    dsimp only
    unfold recvBulkLoop
    rcases recvExact_spec hpieces htook₁ hlen with ⟨s₂, hok, htook₂⟩ | ⟨-, hnone, -⟩
    · rw [hok]
      exact ⟨s₂, rfl, htook₂⟩
    · exact absurd hnone (arrive_readable_ne hreadable)

theorem Took.le (h : Took pieces c s) : c ≤ pieces.flatten.length := by
  obtain ⟨k, -, hle, -⟩ := h
  have hsplit : pieces.flatten = (pieces.take k).flatten ++ (pieces.drop k).flatten := by
    rw [← List.flatten_append, List.take_append_drop]
  rw [hsplit, List.length_append]
  omega

/-- There is room in the stream for what it goes on with. -/
theorem Took.add_le {front rest : Bytes} (h : Took pieces c s)
    (hstream : pieces.flatten.drop c = front ++ rest) :
    c + front.length ≤ pieces.flatten.length := by
  have hlength := congrArg List.length hstream
  rw [List.length_drop, List.length_append] at hlength
  have := h.le
  omega

theorem drop_stream {front rest : Bytes} (hstream : pieces.flatten.drop c = front ++ rest) :
    pieces.flatten.drop (c + front.length) = rest := by
  rw [← List.drop_drop, hstream, List.drop_left]

end

/-! ### Messages -/

/-- The bytes of the bulks that are transferred. -/
def xferBytes (bs : List Bulk) : Bytes :=
  ((bs.filter fun b => b.desc.xfer).map Bulk.data).flatten

/-- The bytes the receiver has of a bulk. -/
def Bulk.transferred (b : Bulk) : Option Bytes :=
  if b.desc.xfer then some b.data else none

theorem recvBulks_spec {pieces : List Bytes} (hpieces : ∀ p ∈ pieces, p ≠ []) (bs : List Bulk) :
    ∀ {c : Nat} {s : Socket} {rest : Bytes}, Took pieces c s →
      pieces.flatten.drop c = xferBytes bs ++ rest →
      ∃ s', recvBulks (bs.map Bulk.desc) s = (.ok, bs.map Bulk.transferred, s') ∧
        Took pieces (c + (xferBytes bs).length) s' := by
  induction bs with
  | nil =>
    intro c s rest htook hstream
    exact ⟨s, rfl, htook⟩
  | cons b bs ih =>
    intro c s rest htook hstream
    by_cases hx : b.desc.xfer = true
    · have hcons : xferBytes (b :: bs) = b.data ++ xferBytes bs := by
        simp [xferBytes, hx]
      rw [hcons, List.append_assoc] at hstream
      obtain ⟨s₁, hbulk, htook₁⟩ := recvBulk_spec hpieces htook (htook.add_le hstream)
      rw [hstream, List.take_left] at hbulk
      obtain ⟨s₂, hrest, htook₂⟩ := ih htook₁ (drop_stream hstream)
      refine ⟨s₂, ?_, ?_⟩
      · rw [List.map_cons, recvBulks, if_pos hx]
        have hsize : b.desc.size = b.data.length := rfl
        rw [hsize, hbulk]
        dsimp only
        rw [hrest, List.map_cons, Bulk.transferred, if_pos hx]
      · rw [hcons, List.length_append, ← Nat.add_assoc]
        exact htook₂
    · have hcons : xferBytes (b :: bs) = xferBytes bs := by
        simp [xferBytes, hx]
      rw [hcons] at hstream ⊢
      obtain ⟨s₁, hrest, htook₁⟩ := ih htook hstream
      refine ⟨s₁, ?_, htook₁⟩
      rw [List.map_cons, recvBulks, if_neg hx]
      dsimp only
      rw [hrest, List.map_cons, Bulk.transferred, if_neg hx]

@[simp] theorem beBytes_length (n : Nat) : (beBytes n).length = 4 := by
  simp [beBytes]

theorem beNat_beBytes {n : Nat} (h : n < 2 ^ 32) : beNat (beBytes n) = n := by
  rw [beNat, beBytes, List.reverse_reverse, leNat_leBytes_of_lt (by simpa using h)]

section

variable {P : Type} (C : Codec P)

/-- A message on the connection. -/
def encode (m : Message P) : Bytes :=
  (buffers C m).flatten

theorem encode_eq (m : Message P) :
    encode C m = beBytes (C.metaStr m).length ++ (C.metaStr m ++ xferBytes m.send) := by
  simp [encode, buffers, xferBytes]

/-- What the receiver is to have of a message. -/
def Message.received (m : Message P) : Received P :=
  ⟨m.payload, m.send.map Bulk.desc, m.send.map Bulk.transferred⟩

variable {C} {pieces : List Bytes} {c : Nat} {s : Socket} {m : Message P} {rest : Bytes}

/-- `RecvAll` where the stream goes on with a message: nothing happens, or the message is
received, or the socket is empty when the metadata is to be read. -/
theorem recvAll_spec (hpieces : ∀ p ∈ pieces, p ≠ []) (hsound : C.Sound m)
    (htook : Took pieces c s) (hstream : pieces.flatten.drop c = encode C m ++ rest) :
    (s.arrive.readable = [] ∧ recvAll C s = (.again, s.arrive)) ∨
    (∃ s', recvAll C s = (.message m.received, s') ∧ Took pieces (c + (encode C m).length) s') ∨
    (∃ s₁, Took pieces (c + 4) s₁ ∧ s₁.arrive.readable = [] ∧ C.metaStr m ≠ []) := by
  rw [encode_eq, List.append_assoc, List.append_assoc] at hstream
  have hroom := htook.add_le hstream
  rw [beBytes_length] at hroom
  unfold recvAll recvMetadata
  rcases recvExact_spec hpieces htook hroom with ⟨s₁, hlenBytes, htook₁⟩ | ⟨-, hempty, hagain⟩
  · right
    have hbytes : (pieces.flatten.drop c).take 4 = beBytes (C.metaStr m).length := by
      rw [hstream]
      exact List.take_left' (beBytes_length _)
    rw [hlenBytes, hbytes]
    dsimp only
    rw [beNat_beBytes hsound.short]
    have hstream₁ := drop_stream hstream
    rw [beBytes_length] at hstream₁
    rcases recvExact_spec hpieces htook₁ (htook₁.add_le hstream₁) with ⟨s₂, hmeta, htook₂⟩ | h
    · left
      rw [hstream₁, List.take_left] at hmeta
      obtain ⟨s₃, hbulks, htook₃⟩ := recvBulks_spec hpieces m.send htook₂ (drop_stream hstream₁)
      refine ⟨s₃, ?_, ?_⟩
      · rw [hmeta]
        dsimp only
        rw [hsound.reads]
        dsimp only
        rw [hbulks]
        rfl
      · rw [encode_eq, List.length_append, List.length_append, beBytes_length]
        rw [Nat.add_assoc, Nat.add_assoc] at htook₃
        exact htook₃
    · right
      refine ⟨s₁, htook₁, h.2.1, ?_⟩
      intro hnil
      rw [hnil] at h
      exact absurd h.1 (by simp)
  · left
    rw [hagain]
    exact ⟨hempty, rfl⟩

end

/-! ### A socket that nothing more arrives at -/

section

variable {s : Socket} {front r : Bytes} {ps : List Bytes}

theorem arrive_nil : (⟨r, ps, []⟩ : Socket).arrive = ⟨r, ps, []⟩ := by
  simp [Socket.arrive]

theorem recvExact_again {len : Nat} (hlen : 0 < len) (hempty : s.arrive.readable = []) :
    recvExact len s = (.again, [], s.arrive) := by
  have hrecv : s.recv len = (none, s.arrive) := by
    unfold Socket.recv
    rw [if_pos hempty]
  unfold recvExact recvExactLoop
  rw [List.length_nil, if_neg (by omega), Nat.sub_zero, hrecv]
  rfl

/-- What is readable is received at once. -/
theorem recvExact_still (hfront : front ≠ []) (harrive : s.arrive = ⟨front ++ r, ps, []⟩) :
    recvExact front.length s = (.ok, front, ⟨r, ps, []⟩) := by
  have hpos : 0 < front.length := List.length_pos_iff.mpr hfront
  have hrecv : s.recv front.length = (some front, ⟨r, ps, []⟩) := by
    unfold Socket.recv
    rw [harrive]
    dsimp only
    rw [if_neg (by simp [hfront]), List.take_left, List.drop_left]
  obtain ⟨n, hn⟩ : ∃ n, 2 * front.length = n + 1 := ⟨2 * front.length - 1, by omega⟩
  unfold recvExact recvExactLoop
  rw [List.length_nil, if_neg (by omega), Nat.sub_zero, hrecv, hn]
  dsimp only
  rw [List.nil_append, recvExactLoop, if_pos (Nat.le_refl _)]

theorem recvExact_zero (s : Socket) : recvExact 0 s = (.ok, [], s) := rfl

/-- The same on a socket that nothing arrives at, also for no bytes. -/
theorem recvExact_nil (front r : Bytes) (ps : List Bytes) :
    recvExact front.length ⟨front ++ r, ps, []⟩ = (.ok, front, ⟨r, ps, []⟩) := by
  by_cases hfront : front = []
  · subst hfront
    exact recvExact_zero _
  · exact recvExact_still hfront arrive_nil

theorem recvBulks_nil (bs : List Bulk) (r : Bytes) (ps : List Bytes) :
    recvBulks (bs.map Bulk.desc) ⟨xferBytes bs ++ r, ps, []⟩ =
      (.ok, bs.map Bulk.transferred, ⟨r, ps, []⟩) := by
  induction bs with
  | nil => rfl
  | cons b bs ih =>
    by_cases hx : b.desc.xfer = true
    · have hcons : xferBytes (b :: bs) = b.data ++ xferBytes bs := by
        simp [xferBytes, hx]
      have hsize : b.desc.size = b.data.length := rfl
      rw [hcons, List.append_assoc, List.map_cons, recvBulks, if_pos hx, hsize, recvBulk,
        recvBulkLoop, recvExact_nil]
      dsimp only
      rw [ih, List.map_cons, Bulk.transferred, if_pos hx]
    · have hcons : xferBytes (b :: bs) = xferBytes bs := by
        simp [xferBytes, hx]
      rw [hcons, List.map_cons, recvBulks, if_neg hx]
      dsimp only
      rw [ih, List.map_cons, Bulk.transferred, if_neg hx]

variable {P : Type} {C : Codec P} {m : Message P}

theorem beBytes_ne_nil (n : Nat) : beBytes n ≠ [] := by
  intro h
  have := congrArg List.length h
  rw [beBytes_length] at this
  cases this

/-- A message that is readable is received. -/
theorem recvAll_still (hsound : C.Sound m) (harrive : s.arrive = ⟨encode C m ++ r, ps, []⟩) :
    recvAll C s = (.message m.received, ⟨r, ps, []⟩) := by
  rw [encode_eq, List.append_assoc, List.append_assoc] at harrive
  have hlenBytes := recvExact_still (beBytes_ne_nil _) harrive
  rw [beBytes_length] at hlenBytes
  unfold recvAll recvMetadata
  rw [hlenBytes]
  dsimp only
  rw [beNat_beBytes hsound.short, recvExact_nil]
  dsimp only
  rw [hsound.reads]
  dsimp only
  rw [recvBulks_nil]
  rfl

/-- A length prefix that is readable and nothing behind it: the message is lost. -/
theorem recvAll_cut (hsound : C.Sound m) (hmeta : C.metaStr m ≠ [])
    (harrive : s.arrive = ⟨beBytes (C.metaStr m).length, ps, []⟩) :
    (recvAll C s).1 = .error := by
  rw [← List.append_nil (beBytes _)] at harrive
  have hlenBytes := recvExact_still (beBytes_ne_nil _) harrive
  rw [beBytes_length] at hlenBytes
  have hnone : recvExact (C.metaStr m).length ⟨[], ps, []⟩ = (.again, [], ⟨[], ps, []⟩) := by
    rw [recvExact_again (List.length_pos_iff.mpr hmeta) (by rw [arrive_nil]), arrive_nil]
  unfold recvAll recvMetadata
  rw [hlenBytes]
  dsimp only
  rw [beNat_beBytes hsound.short, hnone]

end

/-! ### Repeated calls -/

section

variable {P : Type} (C : Codec P) (mode : TransportMode)

/-- `n` calls of `Recv`: each returns the next message and leaves the following ones, or
`EAGAIN` with nothing taken and nothing to read; the connection stays open. -/
def Delivers : Nat → List (Message P) → Conn → Prop
  | 0, _, _ => True
  | n + 1, msgs, conn =>
    (recv C mode conn).2.closed = false ∧
    (((recv C mode conn).1 = .again ∧ (recv C mode conn).2.sock.readable = [] ∧
        (recv C mode conn).2.sock.unread = conn.sock.unread ∧
        Delivers n msgs (recv C mode conn).2) ∨
      ∃ m rest, msgs = m :: rest ∧ (recv C mode conn).1 = .message m.received ∧
        (recv C mode conn).2.sock.unread = rest.flatMap (encode C) ∧
        Delivers n rest (recv C mode conn).2)

/-- A piece ends with the length prefix of a message that has metadata. -/
def CutAfterPrefix (msgs : List (Message P)) (pieces : List Bytes) : Prop :=
  ∃ pre m post k, msgs = pre ++ m :: post ∧ C.metaStr m ≠ [] ∧
    (pieces.take k).flatten.length = (pre.flatMap (encode C)).length + 4

variable {C mode}

theorem recv_of_recvAll {s : Socket} {r : Result P} {s' : Socket} (h : recvAll C s = (r, s'))
    (hr : r ≠ .error) : recv C mode ⟨s, false⟩ = (r, ⟨s', false⟩) := by
  unfold recv
  rw [if_neg (by simp), h]
  cases r with
  | message r => rfl
  | again => rfl
  | error => exact absurd rfl hr

theorem recv_error {s : Socket} (h : (recvAll C s).1 = .error) :
    (recv C mode ⟨s, false⟩).1 = .error := by
  unfold recv
  rw [if_neg (by simp)]
  generalize recvAll C s = r at h
  obtain ⟨r, s'⟩ := r
  obtain rfl : r = .error := h
  rfl

/-- With no piece that ends with a length prefix, every call does what it should. -/
theorem delivers_of_no_cut {msgs : List (Message P)} {pieces : List Bytes}
    (hsound : ∀ m ∈ msgs, C.Sound m) (hpieces : ∀ p ∈ pieces, p ≠ [])
    (hstream : pieces.flatten = msgs.flatMap (encode C)) (hcut : ¬ CutAfterPrefix C msgs pieces)
    (n : Nat) :
    ∀ (pre rest : List (Message P)) (s : Socket), msgs = pre ++ rest →
      Took pieces (pre.flatMap (encode C)).length s → Delivers C mode n rest ⟨s, false⟩ := by
  induction n with
  | zero =>
    intro pre rest s _ _
    trivial
  | succ n ih =>
    intro pre rest s hmsgs htook
    have hrest : pieces.flatten.drop (pre.flatMap (encode C)).length = rest.flatMap (encode C) := by
      rw [hstream, hmsgs, List.flatMap_append, List.drop_left]
    -- a call that takes nothing
    have hagain (hempty : s.arrive.readable = []) (hcall : recvAll C s = (.again, s.arrive)) :
        Delivers C mode (n + 1) rest ⟨s, false⟩ := by
      unfold Delivers
      rw [recv_of_recvAll hcall (by simp)]
      refine ⟨rfl, Or.inl ⟨rfl, hempty, ?_, ih pre rest s.arrive hmsgs htook.arrive⟩⟩
      exact htook.arrive.unread.trans htook.unread.symm
    cases rest with
    | nil =>
      have hnone : s.arrive.readable = [] := by
        have := htook.arrive.unread
        rw [hrest] at this
        exact (List.append_eq_nil_iff.mp this).1
      refine hagain hnone ?_
      unfold recvAll recvMetadata
      rw [recvExact_again (by omega) hnone]
    | cons m rest =>
      rw [List.flatMap_cons] at hrest
      have hm : C.Sound m := hsound m (by rw [hmsgs]; simp)
      rcases recvAll_spec hpieces hm htook hrest with ⟨hempty, hcall⟩ | ⟨s', hcall, htook'⟩ |
        ⟨s₁, htook₁, hempty, hmeta⟩
      · exact hagain hempty hcall
      · unfold Delivers
        rw [recv_of_recvAll hcall (by simp)]
        refine ⟨rfl, Or.inr ⟨m, rest, rfl, rfl, ?_, ?_⟩⟩
        · exact htook'.unread.trans (drop_stream hrest)
        · refine ih (pre ++ [m]) rest s' (by simp [hmsgs]) ?_
          rw [List.flatMap_append, List.length_append, List.flatMap_singleton]
          exact htook'
      · obtain ⟨k, -, hle, hreadable⟩ := htook₁.arrive
        rw [hempty] at hreadable
        have hend := congrArg List.length hreadable
        rw [List.length_drop, List.length_nil] at hend
        exact absurd ⟨pre, m, rest, k, hmsgs, hmeta, by omega⟩ hcut

/-- With the messages before it readable and a piece that ends with the length prefix, the
message is lost. -/
theorem not_delivers_of_cut {m : Message P} {post : List (Message P)} {ps : List Bytes}
    (hsound : C.Sound m) (hmeta : C.metaStr m ≠ []) (pre : List (Message P)) :
    ∀ (s : Socket), (∀ x ∈ pre, C.Sound x) →
      s.arrive = ⟨pre.flatMap (encode C) ++ beBytes (C.metaStr m).length, ps, []⟩ →
      ¬ Delivers C mode (pre.length + 1) (pre ++ m :: post) ⟨s, false⟩ := by
  induction pre with
  | nil =>
    intro s _ harrive hdelivers
    have hcall : (recv C mode ⟨s, false⟩).1 = .error := recv_error (recvAll_cut hsound hmeta harrive)
    rcases hdelivers.2 with ⟨h, -⟩ | ⟨m', rest, -, h, -⟩
    · rw [hcall] at h
      cases h
    · rw [hcall] at h
      cases h
  | cons x pre ih =>
    intro s hpre harrive hdelivers
    rw [List.flatMap_cons, List.append_assoc] at harrive
    have hcall : recv C mode ⟨s, false⟩ = (.message x.received, _) :=
      recv_of_recvAll (recvAll_still (hpre x (by simp)) harrive) (by simp)
    unfold Delivers at hdelivers
    rw [hcall] at hdelivers
    rcases hdelivers.2 with ⟨h, -⟩ | ⟨m', rest, hmsgs, -, -, h⟩
    · cases h
    · obtain ⟨rfl, rfl⟩ := List.cons.inj hmsgs
      exact ih _ (fun y hy => hpre y (by simp [hy])) arrive_nil h

end

/-- The first bytes of the stream, up to a place inside it. -/
theorem take_flatten {pieces : List Bytes} {front : Bytes} (rest : Bytes) {k : Nat}
    (hstream : pieces.flatten = front ++ rest)
    (hk : (pieces.take k).flatten.length = front.length) : (pieces.take k).flatten = front := by
  have hsplit : (pieces.take k).flatten ++ (pieces.drop k).flatten = front ++ rest := by
    rw [← List.flatten_append, List.take_append_drop, hstream]
  exact (List.append_inj hsplit hk).1

/-- **Messages that are sent are received, whenever the pieces of the stream arrive, exactly
if each has no bytes behind its 64th buffer and no piece ends with the length prefix of a
message that has metadata.** -/
theorem framing_iff {P : Type} (C : Codec P) (mode : TransportMode) {msgs : List (Message P)}
    {pieces : List Bytes} (hsound : ∀ m ∈ msgs, C.Sound m) (hpieces : ∀ p ∈ pieces, p ≠ [])
    (hstream : pieces.flatten = msgs.flatMap (encode C)) :
    ((∀ m ∈ msgs, ∃ accepts, send C accepts m = some (encode C m)) ∧
      ∀ schedule n, Delivers C mode n msgs ⟨⟨[], pieces, schedule⟩, false⟩) ↔
    (∀ m ∈ msgs, Fits (buffers C m)) ∧ ¬ CutAfterPrefix C msgs pieces := by
  refine and_congr ?_ ⟨?_, ?_⟩
  · exact forall₂_congr fun m _ => (sendV_returns_iff (buffers C m)).2
  · rintro hdelivers ⟨pre, m, post, k, rfl, hmeta, hk⟩
    have hfront : (pieces.take k).flatten =
        pre.flatMap (encode C) ++ beBytes (C.metaStr m).length := by
      refine take_flatten (C.metaStr m ++ xferBytes m.send ++ post.flatMap (encode C)) ?_ ?_
      · rw [hstream, List.flatMap_append, List.flatMap_cons, encode_eq]
        simp [List.append_assoc]
      · rw [hk, List.length_append, beBytes_length]
    have harrive : (⟨[], pieces, [k]⟩ : Socket).arrive =
        ⟨pre.flatMap (encode C) ++ beBytes (C.metaStr m).length, pieces.drop k, []⟩ := by
      rw [← hfront]
      rfl
    exact not_delivers_of_cut (hsound m (by simp)) hmeta pre ⟨[], pieces, [k]⟩
      (fun x hx => hsound x (by simp [hx])) harrive (hdelivers [k] (pre.length + 1))
  · intro hcut schedule n
    exact delivers_of_no_cut hsound hpieces hstream hcut n [] msgs _ rfl (took_start pieces schedule)

/-- A serialization of one byte of payload and the sizes of bulks that are transferred. -/
def byteCodec : Codec UInt8 where
  ser p ds := p :: ds.map fun d => UInt8.ofNat d.size
  de
    | [] => none
    | p :: sizes => some (p, sizes.map fun n => ⟨n.toNat, bulkXfer⟩)

/-- A message with a bulk of three bytes, in two pieces. -/
theorem delivers_in_pieces :
    Delivers byteCodec .server 2 [⟨7, [⟨[1, 2, 3], ⟨0, 0, 0⟩, bulkXfer⟩]⟩]
      ⟨⟨[], [[0, 0], [0, 2, 7], [3, 1, 2, 3]], [0, 1]⟩, false⟩ := by
  refine (((framing_iff byteCodec .server ?_ ?_ ?_).mpr ⟨?_, ?_⟩).2 [0, 1] 2)
  · intro m hm
    rw [List.mem_singleton.mp hm]
    exact ⟨rfl, by decide⟩
  · decide
  · decide
  · intro m hm
    rw [List.mem_singleton.mp hm]
    rfl
  · rintro ⟨pre, m, post, k, hmsgs, -, hk⟩
    obtain rfl : pre = [] := by
      have := congrArg List.length hmsgs
      rw [List.length_append, List.length_singleton, List.length_cons] at this
      exact List.eq_nil_of_length_eq_zero (by omega)
    rcases Nat.lt_or_ge k 3 with hlt | hge
    · obtain rfl | rfl | rfl : k = 0 ∨ k = 1 ∨ k = 2 := by omega
      · exact absurd hk (by decide)
      · exact absurd hk (by decide)
      · exact absurd hk (by decide)
    · rw [List.take_of_length_le hge] at hk
      exact absurd hk (by decide)

/-- **The length prefix arrives before the metadata: `Recv` closes the connection.** -/
theorem closed_at_cut :
    byteCodec.Sound ⟨7, []⟩ ∧ [[0, 0, 0, 1], [7]].flatten = encode byteCodec ⟨7, []⟩ ∧
      recv byteCodec .server ⟨⟨[], [[0, 0, 0, 1], [7]], [1]⟩, false⟩ =
        (.error, ⟨⟨[], [[7]], []⟩, true⟩) :=
  ⟨⟨rfl, by decide⟩, by decide, by decide⟩

end Lightbeam
end IowarpCore
