/-
`FlushData` and the blobs it moves.

A blob with a block below the level is read, its blocks below the level are freed and
dropped, and then it is put again as a whole.  From the free on the only copy of those bytes is
the buffer, and the flush throws it away whatever the put returned.  So nothing is lost
exactly as long as no such put fails: every step of a flush either leaves its blob alone or
gives it back with the same bytes on targets at the level (`flushStep_keeps`), and the other
blobs are not touched.

The put goes by the name and the tag id that `FlushData` reads off the entry, and these
have to lead back to the same key.  They do as long as every blob was created by a put
(`NamedBlobs`).
-/
import IowarpCore.Proofs.Atomicity
import IowarpCore.Proofs.PutLaw
import IowarpCore.Proofs.Capacity
import IowarpCore.Proofs.Keys

namespace IowarpCore
namespace Cte

open Bdev (Request Reply Devices Outcome Allocator)
open Co

variable {S : Request → Devices → Reply → Devices → Prop} {w w' : World Container Devices}

/-! ### The key leads to the name and the name to the key -/

/-- The entry can be put again: it has a name, a score that a put takes, and the key of that
name under some tag. -/
structure Entered (key : Bytes) (info : BlobInfo) : Prop where
  named : info.blobName ≠ []
  scored : F32.one.lt info.score = false
  keyed : ∃ t, key = compositeKey t info.blobName

/-- Every blob was entered by a put. -/
def NamedBlobs (c : Container) : Prop :=
  ∀ key node, c.blobs.find? key = some node → Entered key node.info

namespace NamedBlobs

variable {c c' : Container}

theorem frame (h : NamedBlobs c) (hblobs : c'.blobs = c.blobs) : NamedBlobs c' := by
  unfold NamedBlobs
  rw [hblobs]
  exact h

theorem assign (h : NamedBlobs c) {key : Bytes} {node : BlobNode}
    (hblobs : c'.blobs = c.blobs.insertOrAssign key node) (hnode : Entered key node.info) :
    NamedBlobs c' := by
  intro k n hfind
  rw [hblobs, AMap.find?_insertOrAssign] at hfind
  by_cases hk : k = key
  · rw [if_pos hk, Option.some.injEq] at hfind
    rw [← hfind, hk]
    exact hnode
  · rw [if_neg hk] at hfind
    exact h k n hfind

theorem filter (h : NamedBlobs c) {p : Bytes → BlobNode → Bool}
    (hblobs : c'.blobs = c.blobs.filter p) : NamedBlobs c' := by
  intro k n hfind
  rw [hblobs, AMap.find?_eq_some_iff, AMap.mem_filter] at hfind
  exact h k n (AMap.find?_eq_some_iff.mpr hfind.1)

/-- Other blocks for a blob. -/
theorem reassign (h : NamedBlobs c) {ptr : BlobPtr} {info : BlobInfo} {blocks : List BlobBlock}
    (hptr : c.PointsTo ptr info)
    (hblobs : c'.blobs = c.blobs.insertOrAssign ptr.key
      ⟨ptr.addr, { info with blocks := blocks }⟩) : NamedBlobs c' := by
  obtain ⟨hname, hscore, hkey⟩ := h _ _ hptr
  exact h.assign hblobs ⟨hname, hscore, hkey⟩

end NamedBlobs

variable {t : PutBlobTask} {info : BlobInfo} {ptr : BlobPtr} {rc : UInt32} {entry : FlushEntry}
  {cfg : Config} {put? : Option UInt32}

/-- A put that was not rejected goes by a score that a blob may have. -/
theorem score_of_ok {c : Container} (hok : ¬t.Rejected c) :
    F32.one.lt (t.scoreFor (c.blobs.find? t.key)) = false := by
  by_cases hbig : F32.one.lt (t.scoreFor (c.blobs.find? t.key)) = true
  · exact absurd (Or.inr (Or.inr (Or.inr hbig))) hok
  · simpa using hbig

theorem Prepared.named {old : UInt64} (h : NamedBlobs w.c) (hok : ¬t.Rejected w.c)
    (hprep : Prepared S t (t.scoreFor (w.c.blobs.find? t.key)) w ptr info old w') :
    NamedBlobs w'.c := by
  cases hprep with
  | kept _ _ => exact h
  | cleared hfind _ _ _ => exact h.reassign (pointsTo_of_find hfind) rfl
  | created _ =>
    refine h.assign rfl ⟨?_, score_of_ok hok, t.tagId, rfl⟩
    intro hnil
    have hname : t.blobName = [] := hnil
    exact hok (Or.inr (Or.inr (Or.inl (by rw [hname]; rfl))))

theorem Extended.named {required : UInt64} {err : UInt32}
    (h : NamedBlobs w.c) (hptr : w.c.PointsTo ptr info)
    (hext : Extended S w ptr info required err w') : NamedBlobs w'.c := by
  cases hext with
  | fits _ => exact h
  | failed _ _ _ => exact h.frame rfl
  | grown _ _ => exact h.reassign hptr rfl

theorem Stored.named {data : Nat → UInt8} {s : F32} {old : UInt64} (h : NamedBlobs w.c)
    (hscore : F32.one.lt s = false) (hptr : w.c.PointsTo ptr info)
    (hstored : Stored S t data s ptr info old w rc w') : NamedBlobs w'.c := by
  cases hstored with
  | noSpace _ hext => exact hext.named h hptr
  | short hext _ _ _ => exact (hext.named h hptr).frame (logExtend_blobs _ _ _ _)
  | @done info₁ w₁ worker d hext hptr₁ _ =>
    have h₁ := hext.named h hptr
    obtain ⟨hname, _, hkey⟩ := h₁ _ _ hptr₁
    have hblobs : (((w₁.c.logExtend worker t info₁.blocks).setBlob ptr
        (finishedBlob t s info₁)).changeTagTotal t.tagId info₁.getTotalSize old).blobs =
        w₁.c.blobs.insertOrAssign ptr.key ⟨ptr.addr, finishedBlob t s info₁⟩ := by
      rw [changeTagTotal_blobs]
      show (w₁.c.logExtend worker t info₁.blocks).blobs.insertOrAssign _ _ = _
      rw [logExtend_blobs]
    exact h₁.assign hblobs ⟨hname, hscore, hkey⟩

theorem PutOutcome.named (h : NamedBlobs w.c)
    (hput : PutOutcome S t w rc w') : NamedBlobs w'.c := by
  cases hput with
  | rejected _ _ => exact h
  | worked hok _ hprep hstored =>
    exact hstored.named (hprep.named h hok) (score_of_ok hok) hprep.pointsTo

theorem DelOutcome.named {tagId : TagId} {blobName : Bytes} (h : NamedBlobs w.c)
    (hdel : DelOutcome S tagId blobName w rc w') : NamedBlobs w'.c := by
  cases hdel with
  | absent _ => exact h
  | @deleted node targets worker d _ hfind _ _ =>
    have hempty : NamedBlobs ({ w.c with targets := targets }.setBlob
        ⟨compositeKey tagId blobName, node.addr⟩ { node.info with blocks := [] }) :=
      h.reassign (pointsTo_of_find hfind) rfl
    exact hempty.filter (p := fun k _ => k ≠ compositeKey tagId blobName) rfl

theorem FlushFreed.named {level : Int} {key : Bytes} {node : BlobNode} (h : NamedBlobs w.c)
    (hfind : w.c.blobs.find? key = some node) (hfreed : FlushFreed S level key node w w') :
    NamedBlobs w'.c := by
  obtain ⟨targets, d, _, _, hw'⟩ := hfreed
  rw [hw']
  exact h.reassign (pointsTo_of_find hfind) rfl

theorem FlushOutcome.named {level : Int} (h : NamedBlobs w.c)
    (hflush : FlushOutcome S level entry w w') : NamedBlobs w'.c := by
  cases hflush with
  | kept => exact h
  | moved hfind hlevels hfrees hput =>
    have hfreed := FlushFreed.named h hfind ⟨_, _, hlevels, hfrees, rfl⟩
    exact hput.named hfreed

/-- Every task names the blobs it creates and renames none. -/
theorem Ran.named (hS : ∀ q d r d', S q d r d' → ServesAny q d r d') {t : Task}
    (h : NamedBlobs w.c) (hran : Ran S cfg t w w') : NamedBlobs w'.c := by
  cases ranAs_of_ran hS hran with
  | getOrCreateTag htag =>
    cases htag with
    | remembered _ _ => exact h.frame rfl
    | known _ => exact h
    | created _ _ => exact h.frame (newTagId_blobs _ _ _)
  | delTag hdel =>
    cases hdel with
    | absent => exact h
    | @deleted id info entries w₁ worker _ _ _ hdels =>
      have h₁ : NamedBlobs w₁.c := by
        refine hdels.invariant (I := fun w => NamedBlobs w.c) ?_ h
        rintro blobName _ w w' hw ⟨rc, hdel⟩
        exact hdel.named hw
      exact h₁.filter (forgetTag_blobs _ _)
  | putBlob hput => exact hput.named h
  | getBlob => exact h
  | delBlob hdel => exact hdel.named h
  | reorganizeBlob hre =>
    cases hre with
    | stopped _ => exact h
    | unread _ _ _ => exact h
    | reput _ hput => exact hput.named h
  | notFlushed => exact h
  | flushed _ hflushes =>
    refine hflushes.invariant (I := fun w => NamedBlobs w.c) ?_ h
    intro entry _ w w' hw hflush
    exact hflush.named hw

theorem named_of_along (hS : ∀ q d r d', S q d r d' → ServesAny q d r d')
    {ts : List Task} (hfresh : Fresh w) (hruns : Along (Ran S cfg) ts w w') : NamedBlobs w'.c := by
  refine hruns.invariant (I := fun w => NamedBlobs w.c) (fun t _ w w' h hran => hran.named hS h) ?_
  intro key node hfind
  rw [hfresh.blobs] at hfind
  simp [AMap.empty, AMap.find?] at hfind

/-! ### Where a put with a level puts its blocks -/

theorem isBelow_congr {c c' : Container} (h : SameLevels c.targets c'.targets) (level : Int)
    (b : BlobBlock) : c'.isBelow level b = c.isBelow level b := by
  have hlevel := h b.bdevClient
  unfold Container.isBelow
  cases hfind : c.targets.find? b.bdevClient with
  | none =>
    rw [hfind, Option.map_none, Option.map_eq_none_iff] at hlevel
    rw [hlevel]
  | some target =>
    rw [hfind, Option.map_some, Option.map_eq_some_iff] at hlevel
    obtain ⟨target', hfind', hsame⟩ := hlevel
    rw [hfind']
    dsimp only
    rw [hsame]

theorem toInt_nonneg (p : PersistenceLevel) : 0 ≤ p.toInt := by
  cases p <;> decide

/-- A block on a target the filter lets through is not below the level. -/
theorem isBelow_of_atLevel {c : Container} {level : Int} {t : TargetInfo} {b : BlobBlock}
    (ht : t ∈ atLevel level c.targets.infos) (hb : b.bdevClient = t.bdevClient) :
    c.isBelow level b = false := by
  have hfind := infos_find (atLevel_subset ht)
  unfold Container.isBelow
  rw [hb, hfind]
  dsimp only
  unfold atLevel at ht
  by_cases hlevel : level > 0
  · rw [if_pos hlevel] at ht
    simpa using (List.mem_filter.mp ht).2
  · have := toInt_nonneg t.persistenceLevel
    rw [decide_eq_false_iff_not]
    omega

/-- The loop appends a block on one of its targets, or nothing. -/
theorem allocateLoop_pools {remaining left : UInt64}
    (hpos : remaining ≠ 0) (ordered : List TargetInfo) :
    ∀ {w : World Container Devices}, w.c.PointsTo ptr info →
      (∀ t ∈ ordered, w.c.targets.find? t.bdevClient = some t ∧ remaining ≤ t.remainingSpace) →
      Runs S (allocateLoop ptr ordered remaining) w left w' →
      w'.c.targets = w.c.targets ∧ ∃ info', w'.c.PointsTo ptr info' ∧
        ∀ b ∈ info'.blocks, b ∈ info.blocks ∨ ∃ t ∈ ordered, b.bdevClient = t.bdevClient := by
  induction ordered with
  | nil =>
    rintro w hptr _ ⟨_, hw'⟩
    rw [hw']
    exact ⟨rfl, info, hptr, fun b hb => Or.inl hb⟩
  | cons t rest ih =>
    intro w hptr hts h
    obtain ⟨hfind, hroom⟩ := hts t List.mem_cons_self
    obtain ⟨reply, w₂, _, hc₂, ⟨_, h⟩ | ⟨b, more, _, _, _, hc'⟩⟩ :=
      runs_allocateLoop_cons hpos hptr hfind hroom h
    · have hptr₂ : w₂.c.PointsTo ptr info := by rw [hc₂]; exact hptr
      have hts₂ : ∀ t' ∈ rest, w₂.c.targets.find? t'.bdevClient = some t' ∧
          remaining ≤ t'.remainingSpace := by
        rw [hc₂]
        exact fun t' ht' => hts t' (List.mem_cons_of_mem _ ht')
      obtain ⟨htargets, info', hptr', hblocks⟩ := ih hptr₂ hts₂ h
      refine ⟨htargets.trans (by rw [hc₂]), info', hptr', ?_⟩
      intro b hb
      refine (hblocks b hb).imp id ?_
      rintro ⟨t', ht', hpool⟩
      exact ⟨t', List.mem_cons_of_mem _ ht', hpool⟩
    · refine ⟨by rw [hc']; rfl, _, by rw [hc']; exact pointsTo_setBlob _ _ _, ?_⟩
      intro b' hb'
      rcases List.mem_append.mp hb' with hb' | hb'
      · exact Or.inl hb'
      · rw [List.mem_singleton.mp hb']
        exact Or.inr ⟨t, List.mem_cons_self, rfl⟩

/-- An extension adds no block below the level. -/
theorem extendBlob_level {offset size : UInt64}
    {blobScore : F32} {level : Int} {err : UInt32} (hptr : w.c.PointsTo ptr info)
    (h : Runs S (extendBlob cfg ptr offset size blobScore level) w err w') :
    w'.c.targets = w.c.targets ∧ ∃ info', w'.c.PointsTo ptr info' ∧
      ∀ b ∈ info'.blocks, b ∈ info.blocks ∨ w.c.isBelow level b = false := by
  by_cases hfits : offset + size ≤ info.getTotalSize
  · have hext := runs_extendBlob hptr h
    cases hext with
    | fits _ => exact ⟨rfl, info, hptr, fun b hb => Or.inl hb⟩
    | failed hnot _ _ => exact absurd hfits hnot
    | grown hnot _ => exact absurd hfits hnot
  obtain ⟨ordered, n, hperm, ⟨_, _, hw'⟩ | ⟨_, left, hloop, _⟩⟩ := runs_extendBlob_stages hptr hfits h
  · rw [hw']
    exact ⟨rfl, info, hptr, fun b hb => Or.inl hb⟩
  · have hts : ∀ t ∈ ordered, w.c.targets.find? t.bdevClient = some t ∧
        offset + size - info.getTotalSize ≤ t.remainingSpace := by
      intro t ht
      obtain ⟨hmem, hroom⟩ := List.mem_filter.mp (atLevel_subset (hperm.mem_iff.mp ht))
      exact ⟨infos_find hmem, by simpa using hroom⟩
    obtain ⟨htargets, info', hptr', hblocks⟩ := allocateLoop_pools (missing_ne_zero hfits) ordered
      (w := ⟨{ w.c with roundRobinCounter := n }, w.d⟩) hptr hts hloop
    refine ⟨htargets, info', hptr', ?_⟩
    intro b hb
    refine (hblocks b hb).imp id ?_
    rintro ⟨t, ht, hpool⟩
    exact isBelow_of_atLevel (mem_atLevel_filter.mp (hperm.mem_iff.mp ht)).1 hpool

/-- Neither does a put to a blob that exists and has none, and it leaves the levels as they
are. -/
theorem putBlob_level {node : BlobNode} (hfind : w.c.blobs.find? t.key = some node)
    (habove : ∀ b ∈ node.info.blocks, w.c.isBelow t.context.minPersistenceLevel b = false)
    (h : Runs S (putBlob cfg t) w rc w') :
    SameLevels w.c.targets w'.c.targets ∧ ∀ node', w'.c.blobs.find? t.key = some node' →
      ∀ b ∈ node'.info.blocks, w.c.isBelow t.context.minPersistenceLevel b = false := by
  rcases runs_putBlob_stages h with ⟨_, _, hw'⟩ | ⟨data, ptr, old, w₁, _, _, hbegins, hstore⟩
  · rw [hw']
    refine ⟨SameLevels.refl _, ?_⟩
    intro node' hfind' b hb
    rw [hfind, Option.some.injEq] at hfind'
    exact habove b (by rw [hfind']; exact hb)
  obtain ⟨info, hprep⟩ := hbegins.prepared
  -- The blob as the put starts to work on it.
  have hready : SameLevels w.c.targets w₁.c.targets ∧ ∀ b ∈ info.blocks,
      w.c.isBelow t.context.minPersistenceLevel b = false := by
    cases hprep with
    | @kept node₀ hfind₀ _ =>
      rw [hfind, Option.some.injEq] at hfind₀
      subst hfind₀
      exact ⟨SameLevels.refl _, habove⟩
    | cleared _ _ hlevels _ => exact ⟨hlevels, by simp⟩
    | created hnone =>
      rw [hfind] at hnone
      simp at hnone
  obtain ⟨hlevels, hblocks⟩ := hready
  obtain ⟨err, w₂, hextend, hend⟩ := runs_putStore_stages hprep.pointsTo hstore
  obtain ⟨htargets, info₂, hptr₂, hnew⟩ := extendBlob_level hprep.pointsTo hextend
  have habove₂ : ∀ b ∈ info₂.blocks,
      w.c.isBelow t.context.minPersistenceLevel b = false := by
    intro b hb
    rcases hnew b hb with hold | hat
    · exact hblocks b hold
    · rwa [isBelow_congr hlevels] at hat
  have hkey := hprep.key
  rw [Container.PointsTo, hkey] at hptr₂
  rcases hend with ⟨_, _, hw'⟩ | ⟨_, info₁, worker, werr, d, hptr₁, _, hend⟩
  · rw [hw', htargets]
    refine ⟨hlevels, ?_⟩
    intro node' hfind' b hb
    rw [hptr₂, Option.some.injEq] at hfind'
    exact habove₂ b (by rw [← hfind'] at hb; exact hb)
  · rw [Container.PointsTo, hkey, hptr₂, Option.some.injEq, BlobNode.mk.injEq] at hptr₁
    obtain ⟨_, hinfo⟩ := hptr₁
    subst hinfo
    rcases hend with ⟨_, _, hw'⟩ | ⟨_, _, hw'⟩
    · rw [hw']
      dsimp only
      rw [logExtend_targets, htargets, logExtend_blobs]
      refine ⟨hlevels, ?_⟩
      intro node' hfind' b hb
      rw [hptr₂, Option.some.injEq] at hfind'
      exact habove₂ b (by rw [← hfind'] at hb; exact hb)
    · rw [hw']
      dsimp only
      rw [(changeTagTotal_frame _ _ _ _).1, changeTagTotal_blobs]
      show SameLevels _ (w₂.c.logExtend worker t info₂.blocks).targets ∧ ∀ node',
        ((w₂.c.logExtend worker t info₂.blocks).blobs.insertOrAssign _ _).find? _ = _ → _
      rw [logExtend_targets, htargets, hkey, AMap.find?_insertOrAssign_self]
      refine ⟨hlevels, ?_⟩
      intro node' hfind' b hb
      rw [Option.some.injEq] at hfind'
      exact habove₂ b (by rw [← hfind'] at hb; exact hb)

/-! ### One blob of a flush -/

/-- The entry was read off the blob map as it stands. -/
def FlushEntry.Describes (entry : FlushEntry) (c : Container) : Prop :=
  ∃ node, c.blobs.find? entry.compositeKey = some node ∧
    entry = ⟨entry.compositeKey, node.info.blobName, parseTagId entry.compositeKey,
      node.info.getTotalSize, node.info.score⟩

theorem describes_of_mem {c : Container} {level : Int} {order : List (Bytes × BlobNode)}
    (horder : order.Perm c.blobs.entries)
    (h : entry ∈ c.blobsToFlush level order) : entry.Describes c := by
  obtain ⟨e, he, hentry⟩ := List.mem_map.mp h
  have hmem : e ∈ c.blobs.entries := horder.mem_iff.mp (List.mem_filter.mp he).1
  rw [← hentry]
  exact ⟨e.2, AMap.find?_eq_some_iff.mpr hmem, rfl⟩

/-- The put of the entry goes back to the same blob. -/
theorem reput_key {c : Container} (hnamed : NamedBlobs c)
    (hentry : entry.Describes c) (level : Int) (buffer : Nat → UInt8) :
    (entry.reput level buffer).key = entry.compositeKey := by
  obtain ⟨node, hfind, hfields⟩ := hentry
  obtain ⟨_, _, t, hkey⟩ := hnamed _ _ hfind
  have htag : entry.tagId = parseTagId entry.compositeKey := congrArg FlushEntry.tagId hfields
  have hname : entry.blobName = node.info.blobName := congrArg FlushEntry.blobName hfields
  show compositeKey entry.tagId entry.blobName = entry.compositeKey
  rw [htag, hname, hkey, parseTagId_compositeKey]

section

variable {level : Int} {key : Bytes} {node : BlobNode}

theorem FlushFreed.find (hfreed : FlushFreed S level key node w w') :
    w'.c.blobs.find? key = some ⟨node.addr,
      { node.info with blocks := node.info.blocks.filter fun b => !w.c.isBelow level b }⟩ := by
  obtain ⟨targets, d, _, _, hw'⟩ := hfreed
  rw [hw']
  exact AMap.find?_insertOrAssign_self _ _ _

theorem FlushFreed.levels (hfreed : FlushFreed S level key node w w') :
    SameLevels w.c.targets w'.c.targets := by
  obtain ⟨targets, d, hlevels, _, hw'⟩ := hfreed
  rw [hw']
  exact hlevels

theorem FlushFreed.othersSame (hfreed : FlushFreed ServesWell level key node w w') :
    OthersSame key w w' := by
  obtain ⟨targets, d, _, hfrees, hw'⟩ := hfreed
  rw [hw']
  refine .of_sameBytes ?_ (sameBytes_freesBlocks (fun _ _ _ _ => ServesWell.any) hfrees)
  intro k hk
  exact AMap.find?_insertOrAssign_of_ne _ _ hk

end

/-- What a step of a flush keeps: the other blobs, the levels of the targets and the bytes of
the blob itself, which is then on targets at the level if it was put again. -/
structure StepKeeps (level : Int) (entry : FlushEntry) (put? : Option UInt32)
    (w w' : World Container Devices) : Prop where
  others : OthersSame entry.compositeKey w w'
  levels : SameLevels w.c.targets w'.c.targets
  present : (w'.c.blobs.find? entry.compositeKey).isSome = true
  size : w'.c.blobSize entry.compositeKey = w.c.blobSize entry.compositeKey
  bytes : contents w' entry.compositeKey = contents w entry.compositeKey
  level : put? = some 0 → ∀ node, w'.c.blobs.find? entry.compositeKey = some node →
    ∀ b ∈ node.info.blocks, w'.c.isBelow level b = false

theorem blobSize_congr {c c' : Container} {key : Bytes}
    (h : c'.blobs.find? key = c.blobs.find? key) : c'.blobSize key = c.blobSize key := by
  rw [Container.blobSize, Container.blobSize, Container.blocks?, Container.blocks?, h]

theorem contents_eq_none {key : Bytes} {i : Nat} (h : w.c.blobSize key ≤ i) :
    contents w key i = none := by
  unfold contents
  cases hblocks : w.c.blocks? key with
  | none => rfl
  | some blocks =>
    rw [blobSize_of_blocks hblocks] at h
    rw [Option.bind_some, readAt, locate_eq_none.mpr h, Option.map_none]

/-- Whatever becomes of the put, the other blobs are not touched. -/
theorem flushStep_others {level : Int}
    (h : SpaceInv w) (hnamed : NamedBlobs w.c) (hentry : entry.Describes w.c)
    (hstep : FlushStep ServesWell cfg level entry w put? w') :
    OthersSame entry.compositeKey w w' := by
  cases hstep with
  | left => exact OthersSame.refl _ _
  | @put node buffer rc w₁ _ hfind _ _ hfreed hrun =>
    have hend : (entry.reput level buffer).offset.toNat + (entry.reput level buffer).size.toNat <
        2 ^ 64 := by
      have := entry.totalSize.toNat_lt
      show (0 : UInt64).toNat + entry.totalSize.toNat < 2 ^ 64
      rw [UInt64.toNat_zero]
      omega
    have hothers := (runs_putBlob hrun).othersSame (hfreed.spaceInv h hfind) hend
    rw [reput_key hnamed hentry] at hothers
    exact hfreed.othersSame.trans hothers

/-- **A step loses nothing if its put does not fail.** -/
theorem flushStep_keeps {level : Int}
    (h : SpaceInv w) (hnamed : NamedBlobs w.c) (hentry : entry.Describes w.c)
    (hstep : FlushStep ServesWell cfg level entry w put? w')
    (hput : ∀ rc, put? = some rc → rc = 0) : StepKeeps level entry put? w w' := by
  have hothers := flushStep_others h hnamed hentry hstep
  cases hstep with
  | left =>
    obtain ⟨node, hfind, _⟩ := hentry
    exact ⟨hothers, SameLevels.refl _, by rw [hfind]; rfl, rfl, rfl, by simp⟩
  | @put node buffer rc w₁ _ hfind hzero hread hfreed hrun =>
    have hrc := hput rc rfl
    subst hrc
    have hkey := reput_key hnamed hentry level buffer
    obtain ⟨node', hfind', hfields⟩ := hentry
    rw [hfind, Option.some.injEq] at hfind'
    subst hfind'
    have hlen := h.sized _ _ hfind
    have htotal : entry.totalSize.toNat = byteLength node.info.blocks := by
      rw [congrArg FlushEntry.totalSize hfields]
      exact getTotalSize_toNat hlen
    have hsize : w.c.blobSize entry.compositeKey = entry.totalSize.toNat := by
      rw [htotal]
      exact blobSize_of_find hfind
    have hpos : entry.totalSize.toNat ≠ 0 := fun hnil => hzero (UInt64.toNat_inj.mp hnil)
    have h₁ := hfreed.spaceInv h hfind
    have hfind₁ := hfreed.find
    -- What is left of the blob is no longer than the data.
    have hkeeps : KeepsRest w₁.c (entry.reput level buffer) := by
      refine ⟨?_, fun _ => ?_⟩
      · have := entry.totalSize.toNat_lt
        show (0 : UInt64).toNat + entry.totalSize.toNat < 2 ^ 64
        rw [UInt64.toNat_zero]
        omega
      · rw [hkey, blobSize_of_find hfind₁]
        show _ ≤ entry.totalSize.toNat
        rw [htotal]
        exact byteLength_filter_le _ _
    have hoffset : (entry.reput level buffer).offset.toNat = 0 := rfl
    have hreput : (entry.reput level buffer).size.toNat = entry.totalSize.toNat := rfl
    have hlaw := (putLaw_iff_of_outcome h₁ rfl (runs_putBlob hrun)).mpr hkeeps
    have hsize' : w'.c.blobSize entry.compositeKey = entry.totalSize.toNat := by
      have hle := hkeeps.2 rfl
      have hmax := hlaw.size
      rw [hkey] at hmax hle
      omega
    have habove : ∀ b ∈ node.info.blocks.filter fun b => !w.c.isBelow level b,
        w₁.c.isBelow level b = false := by
      intro b hb
      rw [isBelow_congr hfreed.levels]
      simpa using (List.mem_filter.mp hb).2
    obtain ⟨hlevels, hat⟩ := putBlob_level (t := entry.reput level buffer)
      (by rw [hkey]; exact hfind₁) habove hrun
    rw [hkey] at hat
    refine ⟨hothers, hfreed.levels.trans hlevels, ?_,
      hsize'.trans hsize.symm, ?_, ?_⟩
    · cases hfound : w'.c.blobs.find? entry.compositeKey with
      | some _ => rfl
      | none =>
        rw [Container.blobSize, Container.blocks?, hfound] at hsize'
        exact absurd hsize'.symm hpos
    · funext i
      by_cases hi : i < entry.totalSize.toNat
      · have hwritten := hlaw.inside i (by omega) (by omega)
        rw [hkey] at hwritten
        have hbyte := readData_reads (fun _ _ _ _ => ServesWell.any)
          (by rw [UInt64.toNat_zero]; omega) hlen (h.laid hfind).bounded hread hi
          (by rw [UInt64.toNat_zero]; omega)
        rw [UInt64.toNat_zero, Nat.zero_add] at hbyte
        have hblocks : w.c.blocks? entry.compositeKey = some node.info.blocks := by
          rw [Container.blocks?, hfind]
          rfl
        rw [hwritten, contents_of_blocks hblocks, hbyte]
        rfl
      · rw [contents_eq_none (by omega), contents_eq_none (by omega)]
    · intro _ node' hfind' b hb
      rw [isBelow_congr hlevels]
      exact hat node' hfind' b hb

/-! ### A whole flush -/

/-- Every blob is still there, as long as it was and with the same bytes, and the blobs that
count as flushed have no block below the level. -/
structure FlushKeeps (level : Int) (steps : List (FlushEntry × Option UInt32))
    (w w' : World Container Devices) : Prop where
  present : ∀ key, (w.c.blobs.find? key).isSome = true → (w'.c.blobs.find? key).isSome = true
  size : ∀ key, w'.c.blobSize key = w.c.blobSize key
  bytes : ∀ key, contents w' key = contents w key
  level : ∀ s ∈ steps, s.2 = some 0 → ∀ node, w'.c.blobs.find? s.1.compositeKey = some node →
    ∀ b ∈ node.info.blocks, w'.c.isBelow level b = false

/-- No put of the flush failed. -/
def PutsSucceed (steps : List (FlushEntry × Option UInt32)) : Prop :=
  ∀ s ∈ steps, ∀ rc, s.2 = some rc → rc = 0

/-- The keys of the blobs a flush deals with. -/
def stepKeys (steps : List (FlushEntry × Option UInt32)) : List Bytes :=
  steps.map fun s => s.1.compositeKey

theorem mem_stepKeys {steps : List (FlushEntry × Option UInt32)} {s : FlushEntry × Option UInt32}
    (h : s ∈ steps) : s.1.compositeKey ∈ stepKeys steps :=
  List.mem_map_of_mem h

theorem key_ne_of_mem {steps : List (FlushEntry × Option UInt32)} {s s' : FlushEntry × Option UInt32}
    (hfresh : s.1.compositeKey ∉ stepKeys steps) (hs' : s' ∈ steps) :
    s'.1.compositeKey ≠ s.1.compositeKey := by
  intro hsame
  exact hfresh (by rw [← hsame]; exact mem_stepKeys hs')

theorem Describes.of_others {other : FlushEntry} (hentry : entry.Describes w.c)
    (hothers : OthersSame other.compositeKey w w')
    (hne : entry.compositeKey ≠ other.compositeKey) : entry.Describes w'.c := by
  obtain ⟨node, hfind, hfields⟩ := hentry
  exact ⟨node, by rw [hothers.blobs _ hne, hfind], hfields⟩

/-- What holds before the steps that are left. -/
structure Ready (steps : List (FlushEntry × Option UInt32)) (w : World Container Devices) :
    Prop where
  space : SpaceInv w
  named : NamedBlobs w.c
  entries : ∀ s ∈ steps, s.1.Describes w.c
  keys : (stepKeys steps).Nodup

theorem Ready.fresh {steps : List (FlushEntry × Option UInt32)} {s : FlushEntry × Option UInt32}
    (h : Ready (s :: steps) w) : s.1.compositeKey ∉ stepKeys steps :=
  (List.nodup_cons.mp h.keys).1

/-- The first step leaves the blobs of the others alone, and the others can go on. -/
theorem Ready.step {level : Int} {steps : List (FlushEntry × Option UInt32)}
    {s : FlushEntry × Option UInt32} (h : Ready (s :: steps) w)
    (hstep : FlushStep ServesWell cfg level s.1 w s.2 w') :
    OthersSame s.1.compositeKey w w' ∧ Ready steps w' := by
  have hothers := flushStep_others h.space h.named (h.entries s List.mem_cons_self) hstep
  exact ⟨hothers, hstep.outcome.spaceInv h.space, hstep.outcome.named h.named,
    fun s' hs' => Describes.of_others (h.entries s' (List.mem_cons_of_mem _ hs')) hothers
      (key_ne_of_mem h.fresh hs'), (List.nodup_cons.mp h.keys).2⟩

/-- A blob that no step is about keeps its entry. -/
theorem flushSteps_others {level : Int} (steps : List (FlushEntry × Option UInt32)) :
    ∀ {w : World Container Devices}, Ready steps w → FlushSteps ServesWell cfg level steps w w' →
      ∀ key, key ∉ stepKeys steps → w'.c.blobs.find? key = w.c.blobs.find? key := by
  induction steps with
  | nil =>
    intro w _ hruns _ _
    rw [hruns]
  | cons s steps ih =>
    rintro w h ⟨w₁, hstep, hrest⟩ key hkey
    obtain ⟨hothers, h₁⟩ := h.step hstep
    have hparts := not_or.mp fun hmem => hkey (List.mem_cons.mpr hmem)
    rw [ih h₁ hrest key hparts.2, hothers.blobs key hparts.1]

theorem flushSteps_keep {level : Int} (steps : List (FlushEntry × Option UInt32)) :
    ∀ {w : World Container Devices}, Ready steps w → FlushSteps ServesWell cfg level steps w w' → PutsSucceed steps →
      FlushKeeps level steps w w' ∧ SameLevels w.c.targets w'.c.targets := by
  induction steps with
  | nil =>
    intro w _ hruns _
    rw [hruns]
    exact ⟨⟨fun _ => id, fun _ => rfl, fun _ => rfl, by simp⟩, SameLevels.refl _⟩
  | cons s steps ih =>
    rintro w h ⟨w₁, hstep, hrest⟩ hputs
    have hfirst := flushStep_keeps h.space h.named (h.entries s List.mem_cons_self) hstep
      (hputs s List.mem_cons_self)
    obtain ⟨-, h₁⟩ := h.step hstep
    obtain ⟨hkeeps, hlevels⟩ := ih h₁ hrest
      fun s' hs' => hputs s' (List.mem_cons_of_mem _ hs')
    -- The step leaves every blob as it was, its own and the others.
    have hstay : ∀ key, ((w.c.blobs.find? key).isSome = true →
        (w₁.c.blobs.find? key).isSome = true) ∧ w₁.c.blobSize key = w.c.blobSize key ∧
        contents w₁ key = contents w key := by
      intro key
      by_cases hkey : key = s.1.compositeKey
      · rw [hkey]
        exact ⟨fun _ => hfirst.present, hfirst.size, hfirst.bytes⟩
      · have hsame := hfirst.others.blobs key hkey
        exact ⟨fun hsome => by rw [hsame]; exact hsome, blobSize_congr hsame,
          hfirst.others.contents_eq hkey⟩
    refine ⟨⟨fun key hsome => hkeeps.present key ((hstay key).1 hsome),
      fun key => (hkeeps.size key).trans (hstay key).2.1,
      fun key => (hkeeps.bytes key).trans (hstay key).2.2, ?_⟩, hfirst.levels.trans hlevels⟩
    intro s' hs' hzero node hfind b hb
    rcases List.mem_cons.mp hs' with hs' | hs'
    · rw [hs'] at hzero hfind
      rw [flushSteps_others steps h₁ hrest _ h.fresh] at hfind
      rw [isBelow_congr hlevels]
      exact hfirst.level hzero node hfind b hb
    · exact hkeeps.level s' hs' hzero node hfind b hb

/-! ### A put that fails loses its blob -/

/-- With complete transfers, a put that fails leaves its blob without bytes. -/
theorem flushStep_loses (hS : ∀ q d r d', S q d r d' → ServesWell q d r d')
    (hfull : ∀ q d r d', S q d r d' → fullTransfer q r = true) {level : Int} (h : SpaceInv w) (hnamed : NamedBlobs w.c)
    (hentry : entry.Describes w.c) (hrc : rc ≠ 0)
    (hstep : FlushStep S cfg level entry w (some rc) w') :
    w'.c.blobSize entry.compositeKey ≠ w.c.blobSize entry.compositeKey := by
  generalize hput : some rc = put? at hstep
  cases hstep with
  | left => simp at hput
  | @put node buffer rc' w₁ _ hfind hzero _ hfreed hrun =>
    rw [Option.some.injEq] at hput
    subst hput
    have hkey := reput_key hnamed hentry level buffer
    obtain ⟨node', hfind', hfields⟩ := hentry
    rw [hfind, Option.some.injEq] at hfind'
    subst hfind'
    have hentered := hnamed _ _ hfind
    have hsize : w.c.blobSize entry.compositeKey ≠ 0 := by
      rw [blobSize_of_find hfind, ← getTotalSize_toNat (h.sized _ _ hfind)]
      intro hnil
      rw [congrArg FlushEntry.totalSize hfields] at hzero
      exact hzero (UInt64.toNat_inj.mp hnil)
    have h₁ : SpaceInv w₁ := by
      obtain ⟨targets, d, hlevels, hfrees, hw₁⟩ := hfreed
      exact FlushFreed.spaceInv h hfind ⟨targets, d, hlevels, hfrees.mono hS, hw₁⟩
    have hfind₁ := hfreed.find
    have hfully : Runs ServesFully (putBlob cfg (entry.reput level buffer)) w₁ rc w' :=
      hrun.mono fun q d r d' hs => ⟨(hS _ _ _ _ hs).any, hfull _ _ _ _ hs⟩
    have hempty : w'.c.blobSize entry.compositeKey = 0 := by
      cases runs_putBlob hfully with
      | rejected hrej _ =>
        -- The put of an entry passes the checks.
        have hname : entry.blobName = node.info.blobName := congrArg FlushEntry.blobName hfields
        have hscore : entry.score = node.info.score := congrArg FlushEntry.score hfields
        rcases hrej with hrej | hrej | hrej | hrej
        · exact absurd hrej hzero
        · simp [FlushEntry.reput] at hrej
        · have hnil : node.info.blobName = [] := hname.symm.trans (List.isEmpty_iff.mp hrej)
          exact absurd hnil hentered.named
        · have hown : (entry.reput level buffer).scoreFor
              (w'.c.blobs.find? (entry.reput level buffer).key) = node.info.score := by
            rw [hkey, hfind₁]
            unfold PutBlobTask.scoreFor
            split
            · rfl
            · exact hscore
          rw [hown, hentered.scored] at hrej
          exact absurd hrej (by decide)
      | worked hok _ hprep hstored =>
        obtain ⟨n, hc⟩ := hstored.noSpace_of_full hrc
        have hblobs : w'.c.blobs = _ := congrArg Container.blobs hc
        -- The put cleared the blob, or found that nothing was left of it.
        have hbase := hfind₁
        rw [← hkey] at hbase
        have hclears := clears_iff h₁ hok hbase
        have hptr := hprep.pointsTo
        rw [Container.PointsTo, hprep.key, hkey] at hptr
        rw [blobSize_of_find (by rw [hblobs]; exact hptr)]
        cases hprep with
        | @kept node' hfind' hnot =>
          rw [hkey, hfind₁, Option.some.injEq] at hfind'
          subst hfind'
          by_contra hne
          exact hnot (hclears.mpr ⟨rfl, hne⟩)
        | cleared _ _ _ _ => rfl
        | created hnone =>
          rw [hkey, hfind₁] at hnone
          simp at hnone
    rw [hempty]
    exact fun hsame => hsize hsame.symm

theorem FlushStep.mono {T : Request → Devices → Reply → Devices → Prop}
    (hST : ∀ q d r d', S q d r d' → T q d r d') {level : Int} (h : FlushStep S cfg level entry w put? w') :
    FlushStep T cfg level entry w put? w' := by
  cases h with
  | left => exact .left
  | put hfind hzero hread hfreed hput =>
    obtain ⟨targets, d, hlevels, hfrees, hw₁⟩ := hfreed
    exact .put hfind hzero (hread.mono hST) ⟨targets, d, hlevels, hfrees.mono hST, hw₁⟩
      (hput.mono hST)

theorem flushSteps_lose (hS : ∀ q d r d', S q d r d' → ServesWell q d r d')
    (hfull : ∀ q d r d', S q d r d' → fullTransfer q r = true) {level : Int}
    (steps : List (FlushEntry × Option UInt32)) :
    ∀ {w : World Container Devices}, Ready steps w → FlushSteps S cfg level steps w w' → ∀ s ∈ steps, ∀ rc, s.2 = some rc → rc ≠ 0 →
      w'.c.blobSize s.1.compositeKey ≠ w.c.blobSize s.1.compositeKey := by
  induction steps with
  | nil =>
    intro w _ _ s hs
    simp at hs
  | cons s steps ih =>
    rintro w h ⟨w₁, hstep, hrest⟩ s' hs' rc hput hrc
    obtain ⟨hothers, h₁⟩ := h.step (hstep.mono hS)
    rcases List.mem_cons.mp hs' with hs' | hs'
    · rw [hs'] at hput ⊢
      rw [hput] at hstep
      have hkept := flushSteps_others steps h₁
        (hrest.mono fun _ _ _ hs => hs.mono hS) _ h.fresh
      rw [blobSize_congr hkept]
      exact flushStep_loses hS hfull h.space h.named (h.entries s List.mem_cons_self) hrc hstep
    · rw [← blobSize_congr (hothers.blobs _ (key_ne_of_mem h.fresh hs'))]
      exact ih h₁ hrest s' hs' rc hput hrc

/-! ### When a flush loses nothing -/

/-- The blobs a flush deals with are blobs it found, each once. -/
theorem FlushTrace.steps {level : Int} {steps : List (FlushEntry × Option UInt32)}
    {counts : UInt64 × UInt64} (h : FlushTrace S cfg level steps counts w w') :
    (∀ s ∈ steps, s.1.Describes w.c) ∧ (stepKeys steps).Nodup := by
  rcases h.entries with hnil | ⟨order, hperm, hfst⟩
  · rw [hnil]
    exact ⟨by simp, List.nodup_nil⟩
  · refine ⟨?_, ?_⟩
    · intro s hs
      have hmem : s.1 ∈ steps.map Prod.fst := List.mem_map_of_mem hs
      rw [hfst] at hmem
      exact describes_of_mem hperm hmem
    · have hkeys : stepKeys steps = (steps.map Prod.fst).map FlushEntry.compositeKey := by
        rw [List.map_map]
        rfl
      have hsub : (stepKeys steps).Sublist (order.map Prod.fst) := by
        rw [hkeys, hfst, Container.blobsToFlush, List.map_map]
        exact List.filter_sublist.map Prod.fst
      exact ((hperm.map Prod.fst).nodup_iff.mpr w.c.blobs.nodup).sublist hsub

/-- **A flush loses nothing as long as no put of it fails.**

This holds whatever else fails: a blob for which there is no buffer, or that cannot be read in
full, is left as it is.  When the devices complete every transfer, a flush of which a put
failed has lost a blob.  The engine is one whose allocations were all well served.
-/
theorem flush_keeps_iff (hS : ∀ q d r d', S q d r d' → ServesWell q d r d') {cfg : Config}
    {ts : List Task} {level : Int} {counts : UInt64 × UInt64} {w₀ : World Container Devices}
    (hfresh : Fresh w₀) (hruns : Along (Ran ServesWell cfg) ts w₀ w)
    (hflush : Runs S (flushData cfg level) w counts w') :
    ∃ steps, FlushTrace S cfg level steps counts w w' ∧
      (PutsSucceed steps → FlushKeeps level steps w w') ∧
      ((∀ q d r d', S q d r d' → fullTransfer q r = true) → FlushKeeps level steps w w' →
        PutsSucceed steps) := by
  have hany : ∀ q d r d', S q d r d' → ServesAny q d r d' := fun _ _ _ _ hs => (hS _ _ _ _ hs).any
  obtain ⟨steps, htrace⟩ := runs_flushData_steps hany hflush
  have h := spaceInv_of_along hfresh hruns
  have hnamed := named_of_along (fun _ _ _ _ => ServesWell.any) hfresh hruns
  obtain ⟨hentries, hkeys⟩ := htrace.steps
  refine ⟨steps, htrace, ?_, ?_⟩
  · intro hputs
    exact (flushSteps_keep steps ⟨h, hnamed, hentries, hkeys⟩
      (htrace.runs.mono fun _ _ _ hs => hs.mono hS) hputs).1
  · intro hfull hkeeps s hs rc hput
    by_contra hrc
    exact flushSteps_lose hS hfull steps ⟨h, hnamed, hentries, hkeys⟩ htrace.runs s hs rc hput hrc
      (hkeeps.size _)

/-- A volatile target of ten megabytes, and one of a page that lasts. -/
def tieredEngine : World Container Devices :=
  ⟨Container.create ⟨⟨[(ramPool, ⟨ramPool, default, F32.one, 10485760, default, .volatile⟩),
      (⟨513, 1⟩, ⟨⟨513, 1⟩, default, F32.one, 4096, default, .longTerm⟩)], by decide⟩, by decide⟩ 1,
    ⟨⟨[(ramPool, ⟨.ram, Allocator.init 1 10485760 4096, 10485760, fun _ => 0⟩),
      (⟨513, 1⟩, ⟨.ram, Allocator.init 1 4096 4096, 4096, fun _ => 0⟩)], by decide⟩,
      fun _ _ => false⟩⟩

theorem fresh_tieredEngine : Fresh tieredEngine := by
  refine ⟨rfl, ?_⟩
  intro p dev hdev
  have hmem := AMap.find?_eq_some_iff.mp hdev
  simp only [tieredEngine, List.mem_cons, Prod.mk.injEq, List.not_mem_nil, or_false] at hmem
  rcases hmem with ⟨_, hdev⟩ | ⟨_, hdev⟩
  · rw [hdev]
    exact ⟨_, _, _, rfl⟩
  · rw [hdev]
    exact ⟨_, _, _, rfl⟩

/-- The engine after one put, and after the flush behind it. -/
def afterPut (size : UInt64) : World Container Devices :=
  runAll smallConfig [.putBlob (smallPut [1] 0 size 7)] tieredEngine

def afterFlush (size : UInt64) : World Container Devices :=
  (exec Devices.serve (flushData smallConfig 2) [] [] (afterPut size)).2

/-- Allocations well served and transfers complete. -/
def ServesWellFully (q : Request) (d : Devices) (r : Reply) (d' : Devices) : Prop :=
  ServesWell q d r d' ∧ fullTransfer q r = true

theorem servesWellFully_of_check (e : Outcome) (q : Request) (d : Devices)
    (h : (checkServed e q d && fullTransfer q (Devices.serve e q d).1) = true) :
    ServesWellFully q d (Devices.serve e q d).1 (Devices.serve e q d).2 := by
  rw [Bool.and_eq_true] at h
  exact ⟨servesWell_of_check e q d h.1, h.2⟩

/-- Ten bytes fit on the page. -/
theorem flush_keeps_ten :
    ∃ steps, FlushTrace ServesWellFully smallConfig 2 steps (1, 10) (afterPut 10)
        (afterFlush 10) ∧
      (PutsSucceed steps ↔ FlushKeeps 2 steps (afterPut 10) (afterFlush 10)) := by
  have hcounts : (exec Devices.serve (flushData smallConfig 2) [] [] (afterPut 10)).1 = (1, 10) := by
    decide +kernel
  have hrun := runs_exec servesWellFully_of_check (flushData smallConfig 2) [] [] (afterPut 10)
    (by decide +kernel)
  rw [hcounts] at hrun
  obtain ⟨steps, htrace, hkeeps, hputs⟩ := flush_keeps_iff (fun _ _ _ _ hs => hs.1)
    fresh_tieredEngine (along_runAll servesWell_of_check _ (by decide +kernel)) hrun
  exact ⟨steps, htrace, hkeeps, hputs fun _ _ _ _ hs => hs.2⟩

/-- Five thousand bytes do not, and are gone. -/
theorem flush_loses_blob :
    Fresh tieredEngine ∧
    Along (Ran ServesWell smallConfig) [.putBlob (smallPut [1] 0 5000 7)] tieredEngine
      (afterPut 5000) ∧
    Runs ServesWell (flushData smallConfig 2) (afterPut 5000) (0, 0) (afterFlush 5000) ∧
    (afterPut 5000).c.blobSize (compositeKey ⟨1, 1⟩ [1]) = 5000 ∧
    (afterFlush 5000).c.blobSize (compositeKey ⟨1, 1⟩ [1]) = 0 ∧
    ∀ steps, ¬FlushKeeps 2 steps (afterPut 5000) (afterFlush 5000) := by
  have hcounts : (exec Devices.serve (flushData smallConfig 2) [] [] (afterPut 5000)).1 =
      (0, 0) := by decide +kernel
  have hrun := runs_exec servesWell_of_check (flushData smallConfig 2) [] [] (afterPut 5000)
    (by decide +kernel)
  rw [hcounts] at hrun
  have hbefore : (afterPut 5000).c.blobSize (compositeKey ⟨1, 1⟩ [1]) = 5000 := by decide +kernel
  have hafter : (afterFlush 5000).c.blobSize (compositeKey ⟨1, 1⟩ [1]) = 0 := by decide +kernel
  refine ⟨fresh_tieredEngine, along_runAll servesWell_of_check _ (by decide +kernel), hrun, hbefore,
    hafter, ?_⟩
  intro steps hkeeps
  have hsame := hkeeps.size (compositeKey ⟨1, 1⟩ [1])
  rw [hbefore, hafter] at hsame
  exact absurd hsame (by decide)

end Cte
end IowarpCore
