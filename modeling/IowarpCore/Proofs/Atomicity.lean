/-
What a failed put leaves behind.

A put frees what it replaces, or creates the entry of a new blob, before it knows whether
there is space for its data and whether the writes will be complete, and nothing of it is
taken back.  So whether a failed put is atomic depends on what became of its requests,
which a run with a log says: `Held.after` is what the devices hold once the requests of a
log are served, and `KeptOnFailure` says what must have become of them.  A put that keeps
its blob and gets no space is atomic.  One that writes in place is when the bytes that
landed are the bytes that were there, one that grew its blob never is, and one that cleared
it is only when the very space that was freed came back with its bytes
(`failed_atomic_iff`).  `ReorganizeBlob` puts the whole blob again at offset 0, which clears
it: it is atomic as long as it fails before, and then only by that accident.
-/
import IowarpCore.Proofs.Space

namespace IowarpCore
namespace Cte

open Bdev (Request Reply Devices Outcome overlay)
open Co

/-- As `ServesAny`, where every transfer is complete. -/
def ServesFully (q : Request) (d : Devices) (r : Reply) (d' : Devices) : Prop :=
  ServesAny q d r d' ∧ fullTransfer q r = true

variable {q : Request} {r : Reply} {rc : UInt32} {t : PutBlobTask} {cfg : Config}

theorem ServesFully.any {d d' : Devices} (h : ServesFully q d r d') : ServesAny q d r d' := h.1

/-- The blob, the blobs there are, the total of the tag and the space the engine owns are
as they were. -/
structure Atomic (w w' : World Container Devices) (tagId : TagId) (key : Bytes) : Prop where
  contents : contents w' key = contents w key
  size : w'.c.blobSize key = w.c.blobSize key
  score : (w'.c.blobs.find? key).map (fun node => node.info.score) =
    (w.c.blobs.find? key).map fun node => node.info.score
  blobs : ∀ k, (w'.c.blobs.find? k).isSome = (w.c.blobs.find? k).isSome
  total : w'.c.tagTotal? tagId = w.c.tagTotal? tagId
  granted : w'.d.granted = w.d.granted

theorem Atomic.refl (w : World Container Devices) (tagId : TagId) (key : Bytes) :
    Atomic w w tagId key :=
  ⟨rfl, rfl, rfl, fun _ => rfl, rfl, rfl⟩

/-! ### Complete transfers -/

/-- A batch of complete transfers has no error. -/
theorem transferError_of_all {qs : List Request} {rs : List Reply} (hlen : rs.length = qs.length)
    (hfull : ∀ x ∈ qs.zip rs, fullTransfer x.1 x.2 = true) :
    transferError qs (awaited fullTransfer qs rs) = 0 := by
  rw [awaited_of_all hlen hfull, transferError, if_pos]
  rw [List.all_eq_true]
  exact hfull

theorem transferError_of_full {qs : List Request} {d d' : Devices} {rs : List Reply}
    (h : ServeAll ServesFully qs d rs d') :
    transferError qs (awaited fullTransfer qs rs) = 0 := by
  refine transferError_of_all h.length ?_
  induction h with
  | nil d => simp
  | pick hserve hlen _ ih =>
    intro x hx
    rw [List.zip_append hlen.symm] at ih
    rw [List.zip_append hlen.symm, List.zip_cons_cons] at hx
    rcases List.mem_append.mp hx with hx | hx
    · exact ih x (List.mem_append_left _ hx)
    · rcases List.mem_cons.mp hx with hx | hx
      · rw [hx]
        exact hserve.2
      · exact ih x (List.mem_append_right _ hx)

/-- With complete transfers, a put that got past its checks fails for want of space only, and
then its blob is as it was prepared. -/
theorem Stored.noSpace_of_full {data : Nat → UInt8} {s : F32} {ptr : BlobPtr} {info : BlobInfo}
    {old : UInt64} {w w' : World Container Devices} (hrc : rc ≠ 0)
    (h : Stored ServesFully t data s ptr info old w rc w') :
    ∃ n, w'.c = { w.c with roundRobinCounter := n } := by
  cases h with
  | noSpace herr hext =>
    cases hext with
    | fits _ => exact absurd rfl herr
    | failed _ _ _ => exact ⟨_, rfl⟩
    | grown _ _ => exact absurd rfl herr
  | short _ _ herr hwrites =>
    obtain ⟨all, hserve, hcode⟩ := hwrites
    rw [transferError_of_full hserve] at hcode
    exact absurd hcode herr
  | done _ _ _ => exact absurd rfl hrc

/-! ### What a log says -/

/-- Requests in the order in which they were served, with their replies. -/
abbrev Log := List (Request × Reply)

/-- What the devices hold: their bytes and which space is handed out. -/
@[ext] structure Held where
  bytes : PoolId → Nat → UInt8
  granted : PoolId → Nat → Bool

def held (d : Devices) : Held := ⟨d.byteAt, d.granted⟩

/-- One request more.  The reply says how many bytes of a write landed, and a free that is
refused takes nothing back. -/
def Held.serve (h : Held) (x : Request × Reply) : Held :=
  let accounted := { h with
    granted := Function.update h.granted x.1.pool
      (Devices.account x.1.op x.2 (h.granted x.1.pool)) }
  match x.1.op with
  | .allocateBlocks _ => accounted
  | .freeBlocks _ => if x.2.returnCode = 0 then accounted else h
  | .write block data _ =>
    { h with
      bytes := Function.update h.bytes x.1.pool
        (overlay (h.bytes x.1.pool) block.offset.toNat x.2.landed.toNat data) }
  | .read _ _ => h

/-- What the devices hold when the requests of the log are served. -/
def Held.after (h : Held) (log : Log) : Held := log.foldl Held.serve h

theorem held_of_serve {d d' : Devices} (hs : ServesAny q d r d') :
    held d' = (held d).serve (q, r) := by
  obtain ⟨e, hserve⟩ := hs
  obtain ⟨pool, query, op⟩ := q
  rcases serve_cases hserve with ⟨_, hr, hd'⟩ | ⟨dev, hdev, hr, hdevs, hgranted⟩
  · -- There is no such device: nothing lands and nothing is granted or taken back.
    rw [hd', hr]
    cases op with
    | allocateBlocks size =>
      refine Held.ext rfl (Function.update_eq_self_iff.mpr ?_).symm
      simp [Devices.account, held]
    | freeBlocks blocks => rfl
    | write block data length =>
      refine Held.ext (Function.update_eq_self_iff.mpr ?_).symm rfl
      funext a
      simp [overlay]
    | read block length => rfl
  · have hbytes : d'.byteAt = Function.update d.byteAt pool (dev.handle e op).2.contents := by
      funext p a
      rw [byteAt_replaced hdevs, Function.update_apply]
      split <;> rfl
    have hold : d.byteAt pool = dev.contents := by
      funext a
      rw [Devices.byteAt, hdev]
    have hsame : (dev.handle e op).2.contents = dev.contents → d'.byteAt = d.byteAt := by
      intro hcontents
      rw [hbytes, hcontents, ← hold]
      exact Function.update_eq_self _ _
    cases op with
    | allocateBlocks size => exact Held.ext (hsame rfl) hgranted
    | freeBlocks blocks =>
      rw [Held.serve, if_pos (by rw [hr]; rfl)]
      exact Held.ext (hsame rfl) hgranted
    | write block data length =>
      refine Held.ext ?_ (hgranted.trans (Function.update_eq_self _ _))
      show d'.byteAt = Function.update d.byteAt pool
        (overlay (d.byteAt pool) block.offset.toNat r.landed.toNat data)
      rw [hbytes, hold, hr]
      rfl
    | read block length => exact Held.ext (hsame rfl) (hgranted.trans (Function.update_eq_self _ _))

/-- The log of a run accounts for what the devices hold. -/
theorem held_of_runs {α : Type} {x : TaskResume α} {a : α} {h : Held}
    {w w' : World Container (Devices × Log)} (hrun : Runs (Logged ServesAny) x w a w')
    (hw : held w.d.1 = h.after w.d.2) : held w'.d.1 = h.after w'.d.2 := by
  refine hrun.invariant (I := fun d => held d.1 = h.after d.2) ?_ hw
  intro q d r d' hd hs
  rw [held_of_serve hs.1, hd, hs.2]
  simp only [Held.after, List.foldl_append, List.foldl_cons, List.foldl_nil]

/-- Where nothing lands every byte stays. -/
theorem bytes_after_of_refused (log : Log) : ∀ {h : Held},
    (∀ x ∈ log, x.2.landed = 0) → (h.after log).bytes = h.bytes := by
  induction log with
  | nil => exact fun _ => rfl
  | cons x log ih =>
    intro h hnone
    show ((h.serve x).after log).bytes = h.bytes
    rw [ih fun y hy => hnone y (List.mem_cons_of_mem _ hy), Held.serve]
    have hlanded := hnone x List.mem_cons_self
    cases x.1.op with
    | allocateBlocks size => rfl
    | freeBlocks blocks =>
      dsimp only
      split <;> rfl
    | write block data length =>
      refine Function.update_eq_self_iff.mpr ?_
      funext a
      simp [overlay, hlanded]
    | read block length => rfl

/-- Where a request was granted space. -/
def grantOf (x : Request × Reply) : Option (PoolId × Nat) :=
  match x.1.op with
  | .allocateBlocks _ => x.2.blocks.head?.map fun b => (x.1.pool, b.offset.toNat)
  | _ => none

def IsRead (q : Request) : Prop := ∃ block length, q.op = .read block length

/-- The request got no space, and it is no read. -/
structure Quiet (x : Request × Reply) : Prop where
  granted : grantOf x = none
  noRead : ¬IsRead x.1

/-- From `d` to `d'` the log grew by such entries. -/
def Adds (P : Request × Reply → Prop) (d d' : Devices × Log) : Prop :=
  ∃ l, d'.2 = d.2 ++ l ∧ ∀ x ∈ l, P x

section

variable {P P' : Request × Reply → Prop} {d d₁ d' : Devices × Log}

theorem Adds.refl (P : Request × Reply → Prop) (d : Devices × Log) : Adds P d d :=
  ⟨[], by simp, by simp⟩

theorem Adds.trans (h : Adds P d d₁) (h' : Adds P d₁ d') : Adds P d d' := by
  obtain ⟨l, hl, hP⟩ := h
  obtain ⟨l', hl', hP'⟩ := h'
  refine ⟨l ++ l', by rw [hl', hl, List.append_assoc], ?_⟩
  intro x hx
  exact (List.mem_append.mp hx).elim (hP x) (hP' x)

theorem Adds.mono (h : Adds P d d') (hP : ∀ x, P x → P' x) : Adds P' d d' := by
  obtain ⟨l, hl, hall⟩ := h
  exact ⟨l, hl, fun x hx => hP x (hall x hx)⟩

theorem Adds.one {S : Request → Devices → Reply → Devices → Prop} (hs : Logged S q d r d')
    (hP : P (q, r)) : Adds P d d' :=
  ⟨[(q, r)], hs.2, by simpa using hP⟩

/-- What holds of the log and of what was added holds of all. -/
theorem Adds.all (h : Adds P d d') (hd : ∀ x ∈ d.2, P x) : ∀ x ∈ d'.2, P x := by
  obtain ⟨l, hl, hP⟩ := h
  rw [hl]
  intro x hx
  exact (List.mem_append.mp hx).elim (hd x) (hP x)

theorem Adds.grant (h : Adds Quiet d d') : d'.2.findSome? grantOf = d.2.findSome? grantOf := by
  obtain ⟨l, hl, hquiet⟩ := h
  rw [hl, List.findSome?_append,
    List.findSome?_eq_none_iff.mpr fun x hx => (hquiet x hx).granted, Option.or_none]

variable {S : Request → Devices → Reply → Devices → Prop}

theorem FreesBlocks.adds {blocks : List BlobBlock} (h : FreesBlocks (Logged S) blocks d d') :
    Adds Quiet d d' := by
  refine h.invariant (I := Adds Quiet d) ?_ (Adds.refl _ _)
  intro pool query bs d₁ r d₂ hd₁ hs
  exact hd₁.trans (Adds.one hs ⟨rfl, by rintro ⟨_, _, hop⟩; simp at hop⟩)

theorem AllocsFail.adds {size : UInt64} (h : AllocsFail (Logged S) size d d') :
    Adds (fun x => Quiet x ∧ fullTransfer x.1 x.2 = true) d d' := by
  refine h.invariant (I := Adds _ d) ?_ (Adds.refl _ _)
  intro pool query d₁ r d₂ hd₁ hs hnil
  refine hd₁.trans (Adds.one hs ⟨⟨?_, by rintro ⟨_, _, hop⟩; simp at hop⟩, rfl⟩)
  rw [grantOf, hnil]
  rfl

/-- A granted allocation is the one grant in the log, where there was none. -/
theorem Grants.adds {size : UInt64} {new : BlobBlock} (h : Grants (Logged S) size new d d') :
    Adds (fun x => ¬IsRead x.1) d d' ∧ (d.2.findSome? grantOf = none →
      d'.2.findSome? grantOf = some (new.bdevClient, new.targetOffset.toNat)) := by
  obtain ⟨d₁, pool, query, r, b, rest, hfails, hs, hblocks, hnew⟩ := h
  have hquiet := hfails.adds.mono fun _ hx => hx.1
  refine ⟨(hquiet.mono fun _ hx => hx.noRead).trans
    (Adds.one hs (by rintro ⟨_, _, hop⟩; simp at hop)), ?_⟩
  intro hnone
  rw [hs.2, List.findSome?_append, hquiet.grant, hnone, hnew]
  simp [grantOf, hblocks]

theorem Writes.adds {data : Nat → UInt8} {blocks : List BlobBlock} {err : UInt32}
    (h : Writes (Logged S) (t.writes data blocks) err d d') :
    Adds Quiet d d' ∧ (err ≠ 0 → ∃ x ∈ d'.2, fullTransfer x.1 x.2 = false) := by
  obtain ⟨all, hserve, herr⟩ := h
  obtain ⟨l, hl, hperm⟩ := hserve.log
  refine ⟨⟨l, hl, ?_⟩, ?_⟩
  · intro x hx
    obtain ⟨p, _, hp⟩ := List.mem_map.mp (List.of_mem_zip (hperm.mem_iff.mp hx)).1
    refine ⟨?_, ?_⟩
    · rw [grantOf, ← hp]
      rfl
    · rintro ⟨_, _, hop⟩
      rw [← hp] at hop
      simp [Piece.writeRequest] at hop
  · intro hne
    by_contra hall
    refine hne (herr.trans (transferError_of_all hserve.length ?_))
    intro x hx
    by_contra hshort
    exact hall ⟨x, by rw [hl]; exact List.mem_append_right _ (hperm.mem_iff.mpr hx),
      by simpa using hshort⟩

end

/-! ### Failed puts -/

/-- The accident: the space that the clearing freed came back, all of it, and holds at the
end the bytes that were there. -/
structure Regained (w : World Container Devices) (node : BlobNode) (size : UInt64) (log : Log) :
    Prop where
  sized : byteLength node.info.blocks = size.toNat
  bytes : ∃ p a, log.findSome? grantOf = some (p, a) ∧ ∀ i < size.toNat,
    readAt w.d.byteAt node.info.blocks i = some (((held w.d).after log).bytes p (a + i))
  granted : ((held w.d).after log).granted = w.d.granted

/-- What must have become of a put on a blob that exists: it wrote in place and changed no
byte, it got no space and so made no transfer that could come up short, or it cleared. -/
inductive LeftAlone (w : World Container Devices) (t : PutBlobTask) (node : BlobNode) (log : Log) :
    Prop
  | inPlace : ¬Clears (t.scoreFor (some node)) t.offset node.info →
      t.offset + t.size ≤ node.info.getTotalSize →
      (∀ i, readAt ((held w.d).after log).bytes node.info.blocks i =
        readAt w.d.byteAt node.info.blocks i) →
      LeftAlone w t node log
  | noSpace : ¬Clears (t.scoreFor (some node)) t.offset node.info →
      ¬t.offset + t.size ≤ node.info.getTotalSize →
      (∀ x ∈ log, fullTransfer x.1 x.2 = true) → LeftAlone w t node log
  | regained : Clears (t.scoreFor (some node)) t.offset node.info →
      Regained w node t.size log → LeftAlone w t node log

/-- The condition: the put is rejected before it did anything, or its blob exists and was
left alone. -/
def KeptOnFailure (w : World Container Devices) (t : PutBlobTask) (log : Log) : Prop :=
  t.Rejected w.c ∨ ∃ node, w.c.blobs.find? t.key = some node ∧ LeftAlone w t node log

section

variable {w w' : World Container (Devices × Log)} {node : BlobNode} {s : F32}

/-- The world without its log. -/
def now (w : World Container (Devices × Log)) : World Container Devices := ⟨w.c, w.d.1⟩

/-- What a put can find in the log when it starts: complete reads. -/
def ReadLog (log : Log) : Prop := ∀ x ∈ log, IsRead x.1 ∧ fullTransfer x.1 x.2 = true

theorem ReadLog.after {log : Log} (h : ∀ x ∈ log, IsRead x.1) : ∀ g : Held, g.after log = g := by
  induction log with
  | nil => exact fun _ => rfl
  | cons x log ih =>
    intro g
    obtain ⟨block, length, hop⟩ := h x List.mem_cons_self
    show (g.serve x).after log = g
    rw [ih fun y hy => h y (List.mem_cons_of_mem _ hy), Held.serve, hop]

theorem ReadLog.grant {log : Log} (h : ReadLog log) : log.findSome? grantOf = none := by
  refine List.findSome?_eq_none_iff.mpr fun x hx => ?_
  obtain ⟨⟨block, length, hop⟩, _⟩ := h x hx
  rw [grantOf, hop]

theorem keptOnFailure_iff {w : World Container Devices} {log : Log} (hok : ¬t.Rejected w.c)
    (hfind : w.c.blobs.find? t.key = some node) :
    KeptOnFailure w t log ↔ LeftAlone w t node log := by
  refine ⟨?_, fun h => .inr ⟨node, hfind, h⟩⟩
  rintro (hrej | ⟨node', hfind', h⟩)
  · exact absurd hrej hok
  · rw [hfind, Option.some.injEq] at hfind'
    rw [hfind']
    exact h

theorem contents_of_find {w : World Container Devices} {key : Bytes}
    (h : w.c.blobs.find? key = some node) (i : Nat) :
    contents w key i = readAt w.d.byteAt node.info.blocks i :=
  contents_of_blocks (by rw [Container.blocks?, h]; rfl) i

/-- Where the entries and the granted space are as they were, only the bytes count. -/
theorem atomic_iff_bytes (w' : World Container (Devices × Log))
    (hfind : w.c.blobs.find? t.key = some node) (hblobs : w'.c.blobs = w.c.blobs) (htags : w'.c.tagIdToInfo = w.c.tagIdToInfo)
    (hgranted : w'.d.1.granted = w.d.1.granted) :
    Atomic (now w) (now w') t.tagId t.key ↔
      ∀ i, readAt w'.d.1.byteAt node.info.blocks i = readAt w.d.1.byteAt node.info.blocks i := by
  have hfind' : w'.c.blobs.find? t.key = some node := by rw [hblobs, hfind]
  have hbytes : ∀ i, contents (now w') t.key i = contents (now w) t.key i ↔
      readAt w'.d.1.byteAt node.info.blocks i = readAt w.d.1.byteAt node.info.blocks i := by
    intro i
    rw [contents_of_find (w := now w') hfind', contents_of_find (w := now w) hfind]
    rfl
  refine ⟨fun hatomic i => (hbytes i).mp (congrFun hatomic.contents i), ?_⟩
  intro hsame
  refine ⟨funext fun i => (hbytes i).mpr (hsame i), ?_, ?_, fun k => ?_, ?_, hgranted⟩
  · rw [blobSize_of_find (c := (now w').c) hfind', blobSize_of_find (c := (now w).c) hfind]
  · rw [now, hblobs, now]
  · rw [now, hblobs, now]
  · rw [Container.tagTotal?, now, htags]
    rfl

theorem granted_of_writes {qs : List Request} {err : UInt32} {d d' : Devices × Log}
    (hwrite : ∀ q ∈ qs, ∃ b f n, q.op = .write b f n)
    (h : Writes (Logged ServesAny) qs err d d') : d'.1.granted = d.1.granted := by
  obtain ⟨all, hserve, _⟩ := h
  refine hserve.invariant (I := fun d₁ => d₁.1.granted = d.1.granted) ?_ rfl
  intro q hq d₁ r d₂ hd₁ hs
  obtain ⟨b, f, n, hop⟩ := hwrite q hq
  have hheld := congrArg Held.granted (held_of_serve hs.1)
  rw [Held.serve, hop] at hheld
  exact hheld.trans hd₁

/-- An allocation that is refused changes nothing. -/
theorem held_of_allocsFail {size : UInt64} {d d' : Devices × Log}
    (h : AllocsFail (Logged ServesAny) size d d') : held d'.1 = held d.1 := by
  refine h.invariant (I := fun d₁ => held d₁.1 = held d.1) ?_ rfl
  intro pool query d₁ r d₂ hd₁ hs hnil
  rw [held_of_serve hs.1, ← hd₁]
  refine Held.ext rfl (Function.update_eq_self_iff.mpr ?_)
  simp [Devices.account, hnil]

theorem Grants.size_eq {size : UInt64} {new : BlobBlock} {d d' : Devices × Log}
    {S : Request → Devices × Log → Reply → Devices × Log → Prop} (h : Grants S size new d d') :
    new.size = size := by
  obtain ⟨_, _, _, _, _, _, _, _, _, hnew⟩ := h
  rw [hnew]

theorem PutBlobTask.writes_op (data : Nat → UInt8) (blocks : List BlobBlock) :
    ∀ q ∈ t.writes data blocks, ∃ b f n, q.op = .write b f n := by
  intro q hq
  obtain ⟨p, _, hp⟩ := List.mem_map.mp hq
  rw [← hp]
  exact ⟨_, _, _, rfl⟩

/-- A put that keeps its blob. -/
theorem leftAlone_of_kept {data : Nat → UInt8} {old : UInt64} (hreads : ReadLog w.d.2)
    (hheld : held w'.d.1 = (held w.d.1).after w'.d.2) (hrc : rc ≠ 0)
    (hfind : w.c.blobs.find? t.key = some node)
    (hnot : ¬Clears (t.scoreFor (some node)) t.offset node.info)
    (h : Stored (Logged ServesAny) t data s ⟨t.key, node.addr⟩ node.info old w rc w') :
    Atomic (now w) (now w') t.tagId t.key ↔ LeftAlone (now w) t node w'.d.2 := by
  cases h with
  | noSpace herr hext =>
    cases hext with
    | fits _ => exact absurd rfl herr
    | grown _ _ => exact absurd rfl herr
    | @failed _ n d hlarge _ hfails =>
      have hsame := held_of_allocsFail hfails
      refine ⟨fun _ => .noSpace hnot hlarge ?_, fun _ => ?_⟩
      · exact (hfails.adds.mono fun _ hx => hx.2).all fun x hx => (hreads x hx).2
      · refine (atomic_iff_bytes ⟨{ w.c with roundRobinCounter := n }, d⟩ hfind rfl rfl
          (congrArg Held.granted hsame)).mpr fun i => ?_
        have hbytes : d.1.byteAt = w.d.1.byteAt := congrArg Held.bytes hsame
        rw [hbytes]
  | @short info₁ w₁ worker err d hext hptr herr hwrites =>
    obtain ⟨x, hx, hshort⟩ := hwrites.adds.2 herr
    have hgranted := granted_of_writes (PutBlobTask.writes_op _ _) hwrites
    cases hext with
    | failed _ hnone _ => exact absurd hnone (by decide)
    | fits hfits =>
      have hbytes : d.1.byteAt = ((held w.d.1).after d.2).bytes := congrArg Held.bytes hheld
      refine (atomic_iff_bytes ⟨w.c.logExtend worker t info₁.blocks, d⟩ hfind
        (logExtend_blobs _ _ _ _) (logExtend_frame _ _ _ _).1 hgranted).trans ⟨?_, ?_⟩
      · intro hsame
        refine .inPlace hnot hfits fun i => ?_
        exact (congrArg (readAt · node.info.blocks i) hbytes).symm.trans (hsame i)
      · intro hleft i
        cases hleft with
        | inPlace _ _ hsame =>
          rw [hbytes]
          exact hsame i
        | noSpace _ hlarge _ => exact absurd hfits hlarge
        | regained hclears _ => exact absurd hclears hnot
    | @grown n d₁ new hlarge hgrants =>
      refine ⟨?_, ?_⟩
      · -- The blob is longer.
        intro hatomic
        have hsize := hatomic.size
        rw [blobSize_of_find (c := (now w).c) hfind, now, blobSize_of_find
          ((congrArg (AMap.find? · t.key) (logExtend_blobs _ _ _ _)).trans
            (AMap.find?_insertOrAssign_self _ _ _)), byteLength_append] at hsize
        simp only [byteLength_cons, byteLength_nil, hgrants.size_eq] at hsize
        have hpos := missing_ne_zero hlarge
        rw [← UInt64.toNat_inj.ne, UInt64.toNat_zero] at hpos
        omega
      · intro hleft
        cases hleft with
        | inPlace _ hfits _ => exact absurd hfits hlarge
        | noSpace _ _ hfull =>
          have hcomplete := hfull x hx
          rw [hshort] at hcomplete
          simp at hcomplete
        | regained hclears _ => exact absurd hclears hnot
  | done _ _ _ => exact absurd rfl hrc

theorem readAt_singleton (f : PoolId → Nat → UInt8) (b : BlobBlock) (i : Nat) :
    readAt f [b] i =
      if i < b.size.toNat then some (f b.bdevClient (b.targetOffset.toNat + i)) else none := by
  unfold readAt locate
  split <;> rfl

/-- The new block of a put that cleared its blob and then wrote, with some of it short. -/
theorem regained_iff {new : BlobBlock} {info₁ : BlobInfo} (hnew : new.size = t.size)
    (hfind : w.c.blobs.find? t.key = some node)
    (hfind' : w'.c.blobs.find? t.key = some ⟨node.addr, info₁⟩)
    (hinfo : info₁ = { node.info with blocks := [new] })
    (hblobs : ∀ k, (w'.c.blobs.find? k).isSome = (w.c.blobs.find? k).isSome)
    (htags : w'.c.tagIdToInfo = w.c.tagIdToInfo)
    (hheld : held w'.d.1 = (held w.d.1).after w'.d.2)
    (hgrant : w'.d.2.findSome? grantOf = some (new.bdevClient, new.targetOffset.toNat)) :
    Atomic (now w) (now w') t.tagId t.key ↔ Regained (now w) node t.size w'.d.2 := by
  subst hinfo
  have hbytes : w'.d.1.byteAt = ((held w.d.1).after w'.d.2).bytes := congrArg Held.bytes hheld
  have hgranted : w'.d.1.granted = ((held w.d.1).after w'.d.2).granted :=
    congrArg Held.granted hheld
  have hafter : ∀ i, contents (now w') t.key i = if i < t.size.toNat then
      some (((held w.d.1).after w'.d.2).bytes new.bdevClient (new.targetOffset.toNat + i))
      else none := by
    intro i
    rw [contents_of_find (w := now w') hfind', readAt_singleton, hnew, ← hbytes]
    rfl
  have hbefore := contents_of_find (w := now w) hfind
  have hsize : (now w').c.blobSize t.key = t.size.toNat := by
    rw [blobSize_of_find (c := (now w').c) hfind', ← hnew]
    rfl
  refine ⟨?_, ?_⟩
  · intro hatomic
    refine ⟨?_, ⟨_, _, hgrant, fun i hi => ?_⟩, hgranted.symm.trans hatomic.granted⟩
    · rw [← blobSize_of_find (c := (now w).c) hfind, ← hatomic.size, hsize]
    · rw [← hbefore, ← congrFun hatomic.contents i, hafter, if_pos hi]
      rfl
  · rintro ⟨hsized, ⟨p, a, hgrant', hsame⟩, hspace⟩
    rw [hgrant, Option.some.injEq, Prod.mk.injEq] at hgrant'
    obtain ⟨hp, ha⟩ := hgrant'
    subst hp
    subst ha
    refine ⟨?_, ?_, ?_, hblobs, ?_, hgranted.trans hspace⟩
    · funext i
      rw [hafter, hbefore]
      by_cases hi : i < t.size.toNat
      · rw [if_pos hi, hsame i hi]
        rfl
      · rw [if_neg hi, readAt, locate_eq_none.mpr (by omega)]
        rfl
    · rw [hsize, blobSize_of_find (c := (now w).c) hfind, hsized]
    · rw [now, hfind', now, hfind]
      rfl
    · rw [Container.tagTotal?, now, htags]
      rfl

/-- A put that clears its blob. -/
theorem leftAlone_of_cleared {data : Nat → UInt8} {targets : Targets} {worker : Nat}
    {d : Devices × Log} (hreads : ReadLog w.d.2)
    (hheld : held w'.d.1 = (held w.d.1).after w'.d.2) (hrc : rc ≠ 0) (hsize : t.size ≠ 0)
    (hfind : w.c.blobs.find? t.key = some node)
    (hclears : Clears (t.scoreFor (some node)) t.offset node.info)
    (hfrees : FreesBlocks (Logged ServesAny) node.info.blocks w.d d)
    (h : Stored (Logged ServesAny) t data s ⟨t.key, node.addr⟩ { node.info with blocks := [] } 0
      ⟨({ w.c with targets := targets }.setBlob ⟨t.key, node.addr⟩
        { node.info with blocks := [] }).logBlob worker (clearTxn t), d⟩ rc w') :
    Atomic (now w) (now w') t.tagId t.key ↔ LeftAlone (now w) t node w'.d.2 := by
  have hnone := hfrees.adds.grant.trans hreads.grant
  have hrequired : t.offset + t.size = t.size := by rw [hclears.2.1, UInt64.zero_add]
  have hleft : LeftAlone (now w) t node w'.d.2 ↔ Regained (now w) node t.size w'.d.2 := by
    refine ⟨?_, .regained hclears⟩
    intro hleft
    cases hleft with
    | inPlace hnot _ _ => exact absurd hclears hnot
    | noSpace hnot _ _ => exact absurd hclears hnot
    | regained _ hregained => exact hregained
  rw [hleft]
  cases h with
  | noSpace herr hext =>
    cases hext with
    | fits _ => exact absurd rfl herr
    | grown _ _ => exact absurd rfl herr
    | failed _ _ hfails =>
      refine ⟨?_, ?_⟩
      · -- The blob had bytes and has none now.
        intro hatomic
        have hlost := hatomic.size
        rw [blobSize_of_find (c := (now w).c) hfind, now, blobSize_of_find
          (AMap.find?_insertOrAssign_self _ _ _), byteLength_nil] at hlost
        refine absurd ?_ hclears.2.2
        rw [← UInt64.toNat_inj, BlobInfo.getTotalSize, totalSizeOf_toNat, ← hlost]
        rfl
      · intro hregained
        obtain ⟨p, a, hgrant, _⟩ := hregained.bytes
        rw [(hfails.adds.mono fun _ hx => hx.1).grant, hnone] at hgrant
        simp at hgrant
  | short hext hptr _ hwrites =>
    cases hext with
    | failed _ hnone _ => exact absurd hnone (by decide)
    | fits hfits =>
      rw [hrequired] at hfits
      exact absurd (UInt64.le_zero_iff.mp hfits) hsize
    | @grown n d₁ new _ hgrants =>
      have hnew : new.size = t.size := by
        rw [hgrants.size_eq, hrequired]
        exact UInt64.sub_zero _
      refine regained_iff hnew hfind ?_ rfl ?_ ?_ hheld
        (hwrites.adds.1.grant.trans (hgrants.adds.2 hnone))
      · rw [logExtend_blobs]
        exact AMap.find?_insertOrAssign_self _ _ _
      · intro k
        rw [logExtend_blobs]
        show (AMap.find? (AMap.insertOrAssign (AMap.insertOrAssign _ _ _) _ _) k).isSome = _
        rw [AMap.find?_insertOrAssign, AMap.find?_insertOrAssign]
        by_cases hk : k = t.key
        · rw [if_pos hk, hk, hfind]
          rfl
        · rw [if_neg hk, if_neg hk]
      · exact (logExtend_frame _ _ _ _).1
  | done _ _ _ => exact absurd rfl hrc

/-- What a put that fails works on is there at the end. -/
theorem Stored.present {S : Request → Devices × Log → Reply → Devices × Log → Prop}
    {data : Nat → UInt8} {ptr : BlobPtr} {info : BlobInfo} {old : UInt64} (hrc : rc ≠ 0)
    (hptr : w.c.PointsTo ptr info) (h : Stored S t data s ptr info old w rc w') :
    (w'.c.blobs.find? ptr.key).isSome = true := by
  cases h with
  | noSpace herr hext =>
    obtain ⟨info₁, hptr₁⟩ := hext.pointsTo hptr
    rw [hptr₁]
    rfl
  | short _ hptr₁ _ _ =>
    rw [logExtend_blobs, hptr₁]
    rfl
  | done _ _ _ => exact absurd rfl hrc

theorem putBlob_atomic_iff (hreads : ReadLog w.d.2) (hrc : rc ≠ 0)
    (h : Runs (Logged ServesAny) (putBlob cfg t) w rc w') :
    Atomic (now w) (now w') t.tagId t.key ↔ KeptOnFailure (now w) t w'.d.2 := by
  have hheld : held w'.d.1 = (held w.d.1).after w'.d.2 :=
    held_of_runs h (ReadLog.after (fun x hx => (hreads x hx).1) _).symm
  cases runs_putBlob h with
  | rejected hrej _ => exact ⟨fun _ => .inl hrej, fun _ => Atomic.refl _ _ _⟩
  | worked hok _ hprep hstored =>
    have hptr := hprep.pointsTo
    cases hprep with
    | kept hfind hnot =>
      rw [hfind] at hnot hstored
      rw [keptOnFailure_iff (w := now w) hok hfind]
      exact leftAlone_of_kept hreads hheld hrc hfind hnot hstored
    | cleared hfind hclears _ hfrees =>
      rw [hfind] at hclears hstored
      rw [keptOnFailure_iff (w := now w) hok hfind]
      exact leftAlone_of_cleared hreads hheld hrc (fun hzero => hok (.inl hzero)) hfind hclears
        hfrees hstored
    | @created worker hfind =>
      refine ⟨?_, ?_⟩
      · intro hatomic
        have hpresent := hstored.present hrc hptr
        have hsame := hatomic.blobs t.key
        rw [now, now, hpresent, hfind] at hsame
        simp at hsame
      · rintro (hrej | ⟨node, hfind', _⟩)
        · exact absurd hrej hok
        · rw [now, hfind] at hfind'
          simp at hfind'

/-! ### Failed reorganizations -/

/-- The condition: it stops before the blob's data, a read comes up short, or the put that
clears the blob gets its space back. -/
inductive KeptOnReorganize (cfg : Config) (w : World Container Devices) (t : ReorganizeBlobTask)
    (log : Log) : Prop
  | stopped : (∀ node, ¬t.Moves cfg w.c node) → KeptOnReorganize cfg w t log
  | unread : (∃ x ∈ log, IsRead x.1 ∧ fullTransfer x.1 x.2 = false) → KeptOnReorganize cfg w t log
  | regained {node : BlobNode} : t.Moves cfg w.c node →
      Regained w node node.info.getTotalSize log → KeptOnReorganize cfg w t log

/-- The re-put of a blob that is moved is not rejected and clears it. -/
theorem reput_clears {c : Container} {t : ReorganizeBlobTask} (buffer : Nat → UInt8)
    (hmoves : t.Moves cfg c node) :
    ¬(t.reput node.info.getTotalSize buffer).Rejected c ∧
      Clears ((t.reput node.info.getTotalSize buffer).scoreFor (some node)) 0 node.info := by
  have hrange := hmoves.scored
  unfold ReorganizeBlobTask.ScoreInRange at hrange
  rw [Bool.or_eq_false_iff] at hrange
  have hscore : ∀ found, (t.reput node.info.getTotalSize buffer).scoreFor found = t.newScore := by
    intro found
    unfold PutBlobTask.scoreFor
    show (if t.newScore.lt F32.zero = true then _ else t.newScore) = t.newScore
    rw [hrange.1]
    rfl
  refine ⟨?_, by rw [hscore]; exact ⟨hmoves.scored, rfl, hmoves.nonempty⟩⟩
  rintro (hrej | hrej | hrej | hrej)
  · exact hmoves.nonempty hrej
  · simp [ReorganizeBlobTask.reput] at hrej
  · have hname : t.blobName.isEmpty = true := hrej
    rw [hmoves.named] at hname
    simp at hname
  · rw [hscore, hrange.2] at hrej
    simp at hrej

/-- A read notes only reads, and it fails when one of them comes up short. -/
theorem log_of_readData {blocks : List BlobBlock} {buffer : Nat → UInt8} {size offset : UInt64}
    {res : UInt32 × (Nat → UInt8)}
    (h : Runs (Logged ServesAny) (readData blocks buffer size offset) w res w') :
    now w' = now w ∧ ∃ l, w'.d.2 = w.d.2 ++ l ∧ (∀ x ∈ l, IsRead x.1) ∧
      (res.1 = 0 ↔ ∀ x ∈ l, fullTransfer x.1 x.2 = true) := by
  simp only [readData, bind_eq, pure_eq, runs_bind, runs_callAll, runs_ret] at h
  obtain ⟨rs, w₁, ⟨all, hrs, hserve, hc⟩, hres, hw'⟩ := h
  subst hw'
  subst hrs
  obtain ⟨l, hl, hperm⟩ := hserve.log
  refine ⟨?_, l, hl, ?_, ?_⟩
  · have hd : w'.d.1 = w.d.1 := by
      refine hserve.invariant (I := fun d => d.1 = w.d.1) ?_ rfl
      intro q hq d r d₁ hd hs
      obtain ⟨p, _, hp⟩ := List.mem_map.mp hq
      rw [serve_read hs.1 (by rw [← hp]; rfl), hd]
    rw [now, hc, hd, now]
  · intro x hx
    obtain ⟨p, _, hp⟩ := List.mem_map.mp (List.of_mem_zip (hperm.mem_iff.mp hx)).1
    rw [← hp]
    exact ⟨_, _, rfl⟩
  · rw [hres]
    refine ⟨fun hzero x hx => full_of_transferError hzero x (hperm.mem_iff.mp hx), fun hfull => ?_⟩
    exact transferError_of_all hserve.length fun x hx => hfull x (hperm.mem_iff.mpr hx)

/-- A put sends no reads. -/
theorem PutOutcome.adds (h : PutOutcome (Logged ServesAny) t w rc w') :
    Adds (fun x => ¬IsRead x.1) w.d w'.d := by
  have hquiet : ∀ {d d' : Devices × Log}, Adds Quiet d d' → Adds (fun x => ¬IsRead x.1) d d' :=
    fun hadds => hadds.mono fun _ hx => hx.noRead
  have hextended : ∀ {w w' : World Container (Devices × Log)} {ptr : BlobPtr} {info : BlobInfo}
      {required : UInt64} {err : UInt32},
      Extended (Logged ServesAny) w ptr info required err w' →
        Adds (fun x => ¬IsRead x.1) w.d w'.d := by
    intro w w' ptr info required err hext
    cases hext with
    | fits _ => exact Adds.refl _ _
    | failed _ _ hfails => exact hquiet (hfails.adds.mono fun _ hx => hx.1)
    | grown _ hgrants => exact hgrants.adds.1
  cases h with
  | rejected _ _ => exact Adds.refl _ _
  | @worked data ptr info old w₁ _ _ _ _ hprep hstored =>
    have hbegin : Adds (fun x => ¬IsRead x.1) w.d w₁.d := by
      cases hprep with
      | kept _ _ => exact Adds.refl _ _
      | cleared _ _ _ hfrees => exact hquiet hfrees.adds
      | created _ => exact Adds.refl _ _
    refine hbegin.trans ?_
    cases hstored with
    | noSpace _ hext => exact hextended hext
    | short hext _ _ hwrites => exact (hextended hext).trans (hquiet hwrites.adds.1)
    | done hext _ hwrites => exact (hextended hext).trans (hquiet hwrites.adds.1)

theorem reorganizeBlob_atomic_iff {t : ReorganizeBlobTask} (hlog : w.d.2 = []) (hrc : rc ≠ 0)
    (h : Runs (Logged ServesAny) (reorganizeBlob cfg t) w rc w') :
    Atomic (now w) (now w') t.tagId (compositeKey t.tagId t.blobName) ↔
      KeptOnReorganize cfg (now w) t w'.d.2 := by
  have hheld : held w'.d.1 = (held w.d.1).after w'.d.2 := held_of_runs h (by rw [hlog]; rfl)
  obtain ⟨hstop, hw'⟩ | ⟨node, res, w₁, hmoves, hget, hrest⟩ := runs_reorganizeBlob_stages h
  · rw [hw']
    exact ⟨fun _ => .stopped hstop, fun _ => Atomic.refl _ _ _⟩
  have hread := (runs_getBlob_found
    (t := ⟨t.tagId, t.blobName, 0, node.info.getTotalSize, cfg.freshBuffer⟩)
    hmoves.nonempty hmoves.named hmoves.found).mp hget
  obtain ⟨hnow, l, hl, hreads, hcode⟩ := log_of_readData hread
  rw [hlog, List.nil_append] at hl
  subst hl
  obtain ⟨hfail, _, hw'⟩ | ⟨hdone, putResult, hput, hrc'⟩ := hrest
  · subst hw'
    rw [hnow]
    refine ⟨fun _ => .unread ?_, fun _ => Atomic.refl _ _ _⟩
    by_contra hnone
    refine hfail (hcode.mpr fun x hx => ?_)
    by_contra hshort
    exact hnone ⟨x, hx, hreads x hx, by simpa using hshort⟩
  · have hfull := hcode.mp hdone
    obtain ⟨hok, hclears⟩ := reput_clears res.2 hmoves
    have hput' : putResult ≠ 0 := by
      intro hzero
      rw [hzero] at hrc'
      exact hrc hrc'
    have hiff := putBlob_atomic_iff (fun x hx => ⟨hreads x hx, hfull x hx⟩) hput' hput
    rw [hnow] at hiff
    refine hiff.trans ((keptOnFailure_iff (w := now w) hok hmoves.found).trans ⟨?_, ?_⟩)
    · intro hleft
      cases hleft with
      | inPlace hnot _ _ => exact absurd hclears hnot
      | noSpace hnot _ _ => exact absurd hclears hnot
      | regained _ hregained => exact .regained hmoves hregained
    · intro hkept
      cases hkept with
      | stopped hstop => exact absurd hmoves (hstop node)
      | unread hshort =>
        -- The reads were complete, and the put sends none.
        obtain ⟨x, hx, hisRead, hshort⟩ := hshort
        obtain ⟨l', hl', hnoRead⟩ := (runs_putBlob hput).adds
        rw [hl'] at hx
        rcases List.mem_append.mp hx with hx | hx
        · rw [hfull x hx] at hshort
          simp at hshort
        · exact absurd hisRead (hnoRead x hx)
      | regained hmoves' hregained =>
        have hsame := Option.some.inj (hmoves.found.symm.trans hmoves'.found)
        rw [← hsame] at hregained
        exact .regained hclears hregained

end

/-- A check that makes the transfers of a scripted run complete. -/
def checkFull (e : Outcome) (q : Request) (d : Devices) : Bool :=
  fullTransfer q (Devices.serve e q d).1

theorem servesFully_of_check (e : Outcome) (q : Request) (d : Devices)
    (h : checkFull e q d = true) :
    ServesFully q d (Devices.serve e q d).1 (Devices.serve e q d).2 :=
  ⟨⟨e, rfl⟩, h⟩

/-- The devices of a scripted run, with the log. -/
def serveLogged (e : Outcome) (q : Request) (d : Devices × Log) : Reply × (Devices × Log) :=
  ((Devices.serve e q d.1).1, (Devices.serve e q d.1).2, d.2 ++ [(q, (Devices.serve e q d.1).1)])

/-- Five bytes at offset 0. -/
def fiveBytes : List Task := [.putBlob (smallPut [1] 0 5 1)]

/-- The five bytes on a file device. -/
def onFile : World Container Devices :=
  runAll smallConfig fiveBytes ⟨smallEngine.c, { smallRam with
    devs := ⟨[(ramPool, ⟨.file, Bdev.Allocator.init 2 10485760 4096, 10485760, fun _ => 0⟩)],
      List.nodup_singleton _⟩ }⟩

/-- A task whose first transfer the file device refuses. -/
def refused {α : Type} (x : TaskResume α) : α × World Container (Devices × Log) :=
  exec serveLogged x [] [⟨0, .submitFailed⟩] ⟨onFile.c, onFile.d, []⟩

theorem runs_refused {α : Type} (x : TaskResume α)
    (h : checkExec serveLogged (fun _ _ _ => true) x [] [⟨0, .submitFailed⟩]
      ⟨onFile.c, onFile.d, []⟩ = true) :
    Runs (Logged ServesAny) x ⟨onFile.c, onFile.d, []⟩ (refused x).1 (refused x).2 :=
  runs_exec (fun e _ _ _ => ⟨⟨e, rfl⟩, rfl⟩) x _ _ _ h

/-- A write into the blob and a move of it. -/
def threeInside : PutBlobTask := smallPut [1] 2 3 7

def movedFive : ReorganizeBlobTask := ⟨⟨1, 1⟩, [1], F32.one⟩

/-- A put that asks for more than the device has. -/
def tooLong (offset : UInt64) : PutBlobTask := smallPut [1] offset 20971520 2

end Cte
end IowarpCore
