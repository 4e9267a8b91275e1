/-
Crash recovery: what a restart rebuilds is what the live container held.

Tasks of all workers take turns at their awaits, snapshots are written and logs truncated
between any two of their stretches, and the crash comes at any such point.  That the tasks
keep the container durable is shown in `Durability`.  Here the snapshot and the truncation
join in: a snapshot may be newer than the logs behind it, because replaying a log over what
it leads to leads there again (`Durable.resave`), and the front of a log may go once the
snapshot is current (`Durable.truncateBlobLog`, `Durable.truncateTagLog`).

It does not hold in every run.  The logs do not record in which order their records were
written, so records of one blob in two logs may be replayed in the wrong order
(`lost_delete`); a record written between the snapshot and the truncation is lost; names of
other nodes are never logged; a snapshot knows only the last name of an id.
-/
import IowarpCore.Proofs.Durability

namespace IowarpCore
namespace Cte

open Bdev (Request Reply Devices)
open Wal (Txn)
open Co

/-! ### Persistence levels -/

section

variable {c c' : Container}

theorem isVolatile_of_sameLevels (h : SameLevels c.targets c'.targets) (p : PoolId) :
    c'.isVolatile p = c.isVolatile p := by
  have hp := h p
  unfold Container.isVolatile
  cases hfind : c.targets.find? p with
  | none =>
    rw [hfind, Option.map_none, Option.map_eq_none_iff] at hp
    rw [hp]
  | some info =>
    rw [hfind, Option.map_some] at hp
    obtain ⟨info', hinfo', hlevel⟩ := Option.map_eq_some_iff.mp hp
    rw [hinfo']
    simp only [hlevel]

theorem nonvolatile_of_sameLevels (h : SameLevels c.targets c'.targets) (blocks : List BlobBlock) :
    c'.nonvolatile blocks = c.nonvolatile blocks := by
  simp only [Container.nonvolatile, isVolatile_of_sameLevels h]

theorem blobEffect_of_sameLevels (h : SameLevels c.targets c'.targets) (key : Bytes) :
    blobEffect c' key = blobEffect c key := by
  funext t
  cases t with
  | extendBlob t => simp only [blobEffect, nonvolatile_of_sameLevels h]
  | createNewBlob t => rfl
  | clearBlob t => rfl
  | delBlob t => rfl
  | createTag t => rfl
  | delTag t => rfl

end

/-! ### Snapshots -/

/-- The blobs as `FlushMetadata` visits them. -/
def Container.blobEntries (c : Container) : List (Bytes × BlobInfo) :=
  c.blobs.entries.map fun e => (e.1, e.2.info)

/-- Names, keys and block lists have lengths that the snapshot can hold. -/
structure SnapshotFits (c : Container) : Prop where
  tags : ∀ e ∈ c.tagIdToInfo.entries, e.2.tagName.length < 2 ^ 32
  blobs : ∀ e ∈ c.blobEntries, BlobFits e

/-- Every container with the same levels gets this back from the snapshot. -/
structure Restores (c₀ : Container) (snapshot : Option Bytes) (saved : Saved) : Prop where
  names : ∀ c : Container, SameLevels c₀.targets c.targets → ∀ name,
    (c.restored snapshot).tagNameToId.find? name = saved.names name
  blobs : ∀ c : Container, SameLevels c₀.targets c.targets → ∀ key,
    (c.restored snapshot).blocks? key = saved.blobs key
  targets : ∀ c : Container, (c.restored snapshot).targets = c.targets

theorem Restores.congr {c₀ : Container} {snapshot : Option Bytes} {saved saved' : Saved}
    (h : Restores c₀ snapshot saved) (hnames : ∀ name, saved.names name = saved'.names name)
    (hblobs : ∀ key, saved.blobs key = saved'.blobs key) : Restores c₀ snapshot saved' :=
  ⟨fun c hc name => (h.names c hc name).trans (hnames name),
    fun c hc key => (h.blobs c hc key).trans (hblobs key), h.targets⟩

theorem restores_none (c₀ : Container) (n : Nat) :
    Restores c₀ none ⟨fun _ => none, fun _ => none, n⟩ :=
  ⟨fun _ _ _ => rfl, fun _ _ _ => rfl, fun _ => rfl⟩

/-- What a container would be saved as. -/
def Container.save (c₀ c : Container) : Saved :=
  ⟨c.tagNameToId.find?, c₀.kept? c, c.recordCount⟩

section

variable {c₀ c : Container} {saved : Saved}

variable {blobs : List (Bytes × BlobInfo)} {tags : List (TagId × TagInfo)} {i : Nat}

theorem find?_of_blobEntries (hperm : blobs.Perm c.blobEntries) {key : Bytes} {info : BlobInfo} :
    (key, info) ∈ blobs ↔ ∃ addr, c.blobs.find? key = some ⟨addr, info⟩ := by
  rw [hperm.mem_iff, Container.blobEntries, List.mem_map]
  refine ⟨?_, ?_⟩
  · rintro ⟨⟨key', node⟩, hmem, heq⟩
    rw [Prod.mk.injEq] at heq
    obtain ⟨hkey, hinfo⟩ := heq
    subst hkey
    subst hinfo
    exact ⟨node.addr, AMap.find?_eq_some_iff.mpr hmem⟩
  · rintro ⟨addr, hfind⟩
    exact ⟨(key, ⟨addr, info⟩), AMap.find?_eq_some_iff.mp hfind, rfl⟩

/-- What comes back from a snapshot depends on the container by its levels only. -/
theorem restored_snapshot (hfit : SnapshotFits c) (htags : tags.Perm c.tagIdToInfo.entries)
    (hblobs : blobs.Perm c.blobEntries) (c' : Container) :
    (c'.restored (some (writeSnapshot tags blobs))).tagNameToId =
        tags.foldl (fun m e => m.insertOrAssign e.2.tagName e.1) AMap.empty ∧
      (∀ key, (c'.restored (some (writeSnapshot tags blobs))).blocks? key =
        (c.blocks? key).map c'.nonvolatile) ∧
      (c'.restored (some (writeSnapshot tags blobs))).targets = c'.targets := by
  have hfitTags : ∀ e ∈ tags, e.2.tagName.length < 2 ^ 32 :=
    fun e he => hfit.tags e (htags.mem_iff.mp he)
  have hfitBlobs : ∀ e ∈ blobs, BlobFits e := fun e he => hfit.blobs e (hblobs.mem_iff.mp he)
  have hkeys : (blobs.map Prod.fst).Nodup := by
    have hmap : c.blobEntries.map Prod.fst = c.blobs.entries.map Prod.fst := by
      rw [Container.blobEntries, List.map_map]
      rfl
    rw [(hblobs.map Prod.fst).nodup_iff, hmap]
    exact c.blobs.nodup
  have hback : c'.restored (some (writeSnapshot tags blobs)) =
      (blobs.foldl restoreBlob (tags.foldl restoreTag c'.startAgain)).raiseMinor
        (tags.foldl (fun m e => bumpMinor m e.1) 0) :=
    restoreMetadataFromLog_writeSnapshot _ hfitTags hfitBlobs
  have htargets : (tags.foldl restoreTag c'.startAgain).targets = c'.targets := by
    rw [foldl_restoreTag]
    rfl
  refine ⟨?_, ?_, ?_⟩
  · rw [hback, raiseMinor_tagNameToId, foldl_restoreBlob_frame, foldl_restoreTag]
    rfl
  · intro key
    rw [hback, Container.blocks?, raiseMinor_blobs, Container.blocks?]
    cases hfind : c.blobs.find? key with
    | some node =>
      have hmem : (key, node.info) ∈ blobs := (find?_of_blobEntries hblobs).mpr ⟨node.addr, hfind⟩
      obtain ⟨addr, hblob⟩ := foldl_restoreBlob_find? blobs (tags.foldl restoreTag c'.startAgain)
        hkeys _ hmem
      rw [hblob, nonvolatile_congr htargets]
      rfl
    | none =>
      rw [foldl_restoreBlob_of_ne, foldl_restoreTag]
      · rfl
      · intro e he hkey
        have hmem : (key, e.2) ∈ blobs := by
          rw [← hkey]
          exact he
        obtain ⟨addr, hsome⟩ := (find?_of_blobEntries hblobs).mp hmem
        rw [hfind] at hsome
        simp at hsome
  · rw [hback, raiseMinor_frame]
    show (blobs.foldl restoreBlob _).targets = _
    rw [foldl_restoreBlob_frame]
    exact htargets

/-- A snapshot of any container restores something, to all containers alike. -/
theorem restores_written (hfit : SnapshotFits c) (htags : tags.Perm c.tagIdToInfo.entries)
    (hblobs : blobs.Perm c.blobEntries) :
    Restores c₀ (some (writeSnapshot tags blobs))
      ⟨(tags.foldl (fun m e => m.insertOrAssign e.2.tagName e.1) AMap.empty).find?,
        c₀.kept? c, c.recordCount⟩ := by
  refine ⟨?_, ?_, ?_⟩
  · intro c' _ name
    rw [(restored_snapshot hfit htags hblobs c').1]
  · intro c' hlevels key
    rw [(restored_snapshot hfit htags hblobs c').2.1]
    show _ = (c.blocks? key).map c₀.nonvolatile
    congr 1
    funext blocks
    exact nonvolatile_of_sameLevels hlevels blocks
  · intro c'
    exact (restored_snapshot hfit htags hblobs c').2.2

/-- A snapshot of a durable container restores its names. -/
theorem restores_snapshot (h : Durable c₀ saved c) (hfit : SnapshotFits c)
    (htags : tags.Perm c.tagIdToInfo.entries) (hblobs : blobs.Perm c.blobEntries) :
    Restores c₀ (some (writeSnapshot tags blobs)) (c₀.save c) := by
  -- The entry of a tag and its name in the map say the same.
  have hname : ∀ e ∈ tags, c.tagNameToId.find? e.2.tagName = some e.1 := by
    intro e he
    rw [h.tags, Container.tagName?, AMap.find?_eq_some_iff.mpr (htags.mem_iff.mp he)]
    rfl
  refine (restores_written hfit htags hblobs).congr ?_ fun _ => rfl
  intro name
  show AMap.find? (tags.foldl _ AMap.empty) name = c.tagNameToId.find? name
  cases hfind : c.tagNameToId.find? name with
  | some id =>
    obtain ⟨info, hinfo, hn⟩ := Option.map_eq_some_iff.mp ((h.tags name id).mp hfind)
    refine AMap.find?_assignAll (fun e : TagId × TagInfo => e.2.tagName) (fun e => e.1) tags
      ⟨(id, info), htags.mem_iff.mpr (AMap.find?_eq_some_iff.mp hinfo), hn⟩ ?_ _
    intro e he hsame
    have := hname e he
    rw [hsame, hfind, Option.some.injEq] at this
    exact this.symm
  | none =>
    refine AMap.find?_assignAll_of_ne (fun e : TagId × TagInfo => e.2.tagName)
      (fun e => e.1) tags _ ?_
    intro e he hsame
    have := hname e he
    rw [hsame, hfind] at this
    simp at this

/-- With a new snapshot the logs may be replayed all the same. -/
theorem Durable.resave (h : Durable c₀ saved c) : Durable c₀ (c₀.save c) c where
  levels := h.levels
  blobLogs := h.blobLogs
  tagLogs := h.tagLogs
  tags := h.tags
  named := h.named
  names := by
    intro name
    show replayed _ _ (c.tagNameToId.find? name) = _
    rw [← h.names]
    exact replayed_idem _ _ _
  blobs := by
    intro key
    show replayed _ _ (replayed _ _ (c₀.kept? c key)) = _
    rw [← h.blobs]
    exact replayed_replayed_idem _ _ _ _ _
  counted := Nat.le_refl _
  current := fun _ => ⟨fun _ => rfl, fun _ => rfl⟩

/-! ### Truncation -/

def Container.truncateBlobLog (c : Container) (i : Nat) : Container :=
  { c with blobTxnLogs := c.blobTxnLogs.set i [] }

def Container.truncateTagLog (c : Container) (i : Nat) : Container :=
  { c with tagTxnLogs := c.tagTxnLogs.set i [] }

/-- Truncating the first log that is not empty cuts off the front. -/
theorem flatten_set_nil {logs : List (List Txn)} (h : (logs.take i).flatten = []) :
    ∃ front, logs.flatten = front ++ (logs.set i []).flatten := by
  by_cases hi : i < logs.length
  · refine ⟨logs[i], ?_⟩
    have hsplit : logs = logs.take i ++ logs[i] :: logs.drop (i + 1) := by
      rw [List.getElem_cons_drop, List.take_append_drop]
    rw [List.set_eq_take_append_cons_drop, if_pos hi, List.flatten_append, List.flatten_cons, h]
    conv_lhs => rw [hsplit]
    rw [List.flatten_append, List.flatten_cons, h]
    rfl
  · refine ⟨[], ?_⟩
    rw [List.set_eq_of_length_le (by omega)]
    rfl

/-- A blob log may go when the snapshot is current, the logs in front of it are empty, and
no record that deletes a tag could take away a blob the container holds. -/
theorem Durable.truncateBlobLog (h : Durable c₀ saved c) (hcur : c.recordCount = saved.count) (hfront : (c.blobTxnLogs.take i).flatten = [])
    (hdel : ∀ t ∈ c.tagTxnLogs.flatten, ∀ key, c.blocks? key ≠ none →
      tagBlobEffect key t = .keep) :
    Durable c₀ (c₀.save (c.truncateBlobLog i)) (c.truncateBlobLog i) := by
  obtain ⟨hnames, hblobs⟩ := h.current hcur
  obtain ⟨front, hflat⟩ := flatten_set_nil hfront
  refine ⟨h.levels, ?_, h.tagLogs, h.tags, h.named, ?_, ?_, Nat.le_refl _,
    fun _ => ⟨fun _ => rfl, fun _ => rfl⟩⟩
  · show c.blobTxnLogs.set i [] ≠ []
    rw [← List.length_pos_iff, List.length_set, List.length_pos_iff]
    exact h.blobLogs
  · intro name
    show replayed _ c.tagTxnLogs.flatten (c.tagNameToId.find? name) = c.tagNameToId.find? name
    rw [← hnames, h.names, hnames]
  · intro key
    show replayed _ (c.blobTxnLogs.set i []).flatten
      (replayed _ c.tagTxnLogs.flatten (c₀.kept? c key)) = c₀.kept? c key
    have hlive := h.blobs key
    rw [hblobs, hflat] at hlive
    cases hkey : c.blocks? key with
    | none =>
      have hnone : c₀.kept? c key = none := by
        rw [Container.kept?, hkey]
        rfl
      rw [hnone] at hlive ⊢
      have htag : replayed (tagBlobEffect key) c.tagTxnLogs.flatten none = none := by
        rcases replayed_erasing (tagBlobEffect_erasing key) c.tagTxnLogs.flatten with hall | hgone
        · exact replayed_of_keep hall
        · exact hgone none
      rw [htag] at hlive ⊢
      rw [replayed_append] at hlive
      exact replayed_none hlive
    | some blocks =>
      have htag : replayed (tagBlobEffect key) c.tagTxnLogs.flatten (c₀.kept? c key) =
          c₀.kept? c key :=
        replayed_of_keep fun t ht => hdel t ht key (by rw [hkey]; simp)
      rw [htag] at hlive ⊢
      have htail := @replayed_tail _ _ (blobEffect c₀ key) _ front
        (c.blobTxnLogs.set i []).flatten rfl (c₀.kept? c key)
      rwa [hlive] at htail

/-- A tag log may go when the snapshot is current and the tag logs in front of it are
empty. -/
theorem Durable.truncateTagLog (h : Durable c₀ saved c) (hcur : c.recordCount = saved.count) (hfront : (c.tagTxnLogs.take i).flatten = []) :
    Durable c₀ (c₀.save (c.truncateTagLog i)) (c.truncateTagLog i) := by
  obtain ⟨hnames, hblobs⟩ := h.current hcur
  obtain ⟨front, hflat⟩ := flatten_set_nil hfront
  refine ⟨h.levels, h.blobLogs, ?_, h.tags, h.named, ?_, ?_, Nat.le_refl _,
    fun _ => ⟨fun _ => rfl, fun _ => rfl⟩⟩
  · show c.tagTxnLogs.set i [] ≠ []
    rw [← List.length_pos_iff, List.length_set, List.length_pos_iff]
    exact h.tagLogs
  · intro name
    show replayed _ (c.tagTxnLogs.set i []).flatten (c.tagNameToId.find? name) =
      c.tagNameToId.find? name
    have hlive := h.names name
    rw [hnames, hflat] at hlive
    have htail := @replayed_tail _ _ (nameEffect name) _ front
      (c.tagTxnLogs.set i []).flatten rfl (c.tagNameToId.find? name)
    rwa [hlive] at htail
  · intro key
    show replayed _ c.blobTxnLogs.flatten
      (replayed _ (c.tagTxnLogs.set i []).flatten (c₀.kept? c key)) = c₀.kept? c key
    have hlive := h.blobs key
    rw [hblobs, hflat, replayed_append] at hlive
    rcases replayed_erasing (tagBlobEffect_erasing key) (c.tagTxnLogs.set i []).flatten with
      hall | hgone
    · rw [replayed_of_keep hall] at hlive ⊢
      -- Either the front kept the blob too, or the blob logs bring it back from nothing.
      rcases replayed_erasing (tagBlobEffect_erasing key) front with hkept | hcut
      · rwa [replayed_of_keep hkept] at hlive
      · rw [hcut] at hlive
        rw [← hlive]
        exact replayed_idem _ _ _
    · rw [hgone] at hlive ⊢
      exact hlive

end

/-! ### The engine -/

/-- The tasks that were started and the world they work on, the snapshot file, and how many
records the logs held when it was written, less those truncated since. -/
structure Engine where
  pool : Pool Task Container Devices Request Reply UInt32
  snapshot : Option Bytes
  savedCount : Nat

namespace Engine

def container (e : Engine) : Container := e.pool.world.c

/-- The engine with another container. -/
def setContainer (e : Engine) (c : Container) : Engine :=
  { e with pool := { e.pool with world := ⟨c, e.pool.world.d⟩ } }

/-- Nothing was started yet and nothing saved. -/
def fresh (targets : Targets) (numLogs : Nat) (d : Devices) : Engine :=
  ⟨⟨⟨Container.create targets numLogs, d⟩, [], []⟩, none, 0⟩

end Engine

inductive EngineEvent where
  | task (m : Move Task)
  | writeSnapshot
  | truncateBlobLog (i : Nat)
  | truncateTagLog (i : Nat)

/-- One step of the engine.  `FlushMetadata` writes the snapshot and truncates the logs one
after another, the blob logs first; here they may be truncated in any order. -/
inductive Engine.Steps (cfg : Config) : EngineEvent → Engine → Engine → Prop
  | task {e : Engine} {m : Move Task} {pool : Pool Task Container Devices Request Reply UInt32} :
      Moves ServesAny (Task.resume cfg) m e.pool pool →
      Steps cfg (.task m) e { e with pool := pool }
  | writeSnapshot {e : Engine} {tags : List (TagId × TagInfo)} {blobs : List (Bytes × BlobInfo)} :
      tags.Perm e.container.tagIdToInfo.entries → blobs.Perm e.container.blobEntries →
      Steps cfg .writeSnapshot e
        { e with
          snapshot := some (Cte.writeSnapshot tags blobs)
          savedCount := e.container.recordCount }
  | truncateBlobLog {e : Engine} {i : Nat} :
      Steps cfg (.truncateBlobLog i) e
        { e.setContainer (e.container.truncateBlobLog i) with
          savedCount := e.savedCount - (e.container.blobTxnLogs.getD i []).length }
  | truncateTagLog {e : Engine} {i : Nat} :
      Steps cfg (.truncateTagLog i) e
        { e.setContainer (e.container.truncateTagLog i) with
          savedCount := e.savedCount - (e.container.tagTxnLogs.getD i []).length }

/-- The tasks recovery is about, and what a new tag must satisfy. -/
def StartSafe (cfg : Config) (c : Container) : Task → Prop
  | .getOrCreateTag tagName preferredId => NewTagSafe cfg c tagName preferredId
  | .delTag _ _ => True
  | .putBlob _ => True
  | .delBlob _ _ => True
  | _ => False

/-- The condition on a step, in the state before it. -/
def EventSafe (cfg : Config) (e : Engine) : EngineEvent → Prop
  | .task (.start t) => StartSafe cfg e.container t
  | .task _ => True
  | .writeSnapshot => SnapshotFits e.container
  | .truncateBlobLog i =>
    e.container.recordCount = e.savedCount ∧ (e.container.blobTxnLogs.take i).flatten = [] ∧
      ∀ t ∈ e.container.tagTxnLogs.flatten, ∀ key, e.container.blocks? key ≠ none →
        tagBlobEffect key t = .keep
  | .truncateTagLog i =>
    e.container.recordCount = e.savedCount ∧ (e.container.tagTxnLogs.take i).flatten = []

/-- A step that meets its condition and takes room from no target. -/
def SafeStep (cfg : Config) (ev : EngineEvent) (e e' : Engine) : Prop :=
  EventSafe cfg e ev ∧ Engine.Steps cfg ev e e' ∧ Room e.container e'.container

/-- The invariant of a run: everything is durable, with respect to what the snapshot
restores. -/
def EngineInv (c₀ : Container) (e : Engine) : Prop :=
  ∃ saved : Saved, Restores c₀ e.snapshot saved ∧ saved.count = e.savedCount ∧
    PoolInv (Recoverable c₀) Room saved e.pool

variable {cfg : Config} {e : Engine}

theorem wp_resume {c₀ c : Container} {saved : Saved} {t : Task}
    (hsafe : StartSafe cfg c t) (h : Recoverable c₀ saved c) :
    Wp (Recoverable c₀) Room (t.resume cfg) (fun _ => Recoverable c₀) saved c := by
  cases t with
  | getOrCreateTag tagName preferredId =>
    simp only [Task.resume, bind_eq, pure_eq, wp_bind, wp_ret]
    exact wp_getOrCreateTag h hsafe
  | delTag tagId tagName => exact wp_delTag h
  | putBlob t => exact wp_putBlob (fun _ _ hroom => hroom) h
  | delBlob tagId blobName => exact wp_delBlob h
  | getBlob t => exact hsafe.elim
  | reorganizeBlob t => exact hsafe.elim
  | flushData level => exact hsafe.elim

/-- A pool whose container was changed, by no task. -/
theorem poolInv_of_container {c₀ c : Container} {saved saved' : Saved}
    {p : Pool Task Container Devices Request Reply UInt32}
    (h : PoolInv (Recoverable c₀) Room saved p) (hroom : Room p.world.c c)
    (hc : Recoverable c₀ saved' c) :
    PoolInv (Recoverable c₀) Room saved' { p with world := ⟨c, p.world.d⟩ } :=
  ⟨hc, fun x hx => (h.parked x hx).later @Room.trans hroom⟩

theorem flatten_length_set (logs : List (List Txn)) (i : Nat) :
    (logs.set i []).flatten.length = logs.flatten.length - (logs.getD i []).length := by
  by_cases hi : i < logs.length
  · have hsplit : logs = logs.take i ++ logs[i] :: logs.drop (i + 1) := by
      rw [List.getElem_cons_drop, List.take_append_drop]
    have hlen : logs.flatten.length = (logs.take i).flatten.length +
        (logs[i].length + (logs.drop (i + 1)).flatten.length) := by
      conv_lhs => rw [hsplit]
      rw [List.flatten_append, List.flatten_cons, List.length_append, List.length_append]
    rw [List.set_eq_take_append_cons_drop, if_pos hi, List.flatten_append, List.flatten_cons,
      List.length_append, List.length_append, hlen, List.getD_eq_getElem?_getD,
      List.getElem?_eq_getElem hi, List.length_nil, Option.getD_some]
    omega
  · rw [List.set_eq_of_length_le (by omega), List.getD_eq_getElem?_getD,
      List.getElem?_eq_none (by omega)]
    rfl

/-- What a log holds, all logs hold. -/
theorem getD_length_le (logs : List (List Txn)) (i : Nat) :
    (logs.getD i []).length ≤ logs.flatten.length := by
  by_cases hi : i < logs.length
  · rw [List.getD_eq_getElem?_getD, List.getElem?_eq_getElem hi, Option.getD_some]
    have hsub : logs[i].Sublist logs.flatten := List.sublist_flatten_of_mem (List.getElem_mem hi)
    exact hsub.length_le
  · rw [List.getD_eq_getElem?_getD, List.getElem?_eq_none (by omega)]
    exact Nat.zero_le _

/-- A truncation, of which `Durability` knows that it is harmless. -/
theorem EngineInv.truncate {c₀ c' : Container} (h : EngineInv c₀ e) {n : Nat}
    (hroom : Room e.container c') (hintact : Intact c' → Intact e.container)
    (hcur : e.container.recordCount = e.savedCount)
    (hcount : c'.recordCount = e.savedCount - n)
    (hlive : ∀ saved, Durable c₀ saved e.container → saved.count = e.container.recordCount →
      Durable c₀ (c₀.save c') c' ∧ (∀ name, saved.names name = (c₀.save c').names name) ∧
        ∀ key, saved.blobs key = (c₀.save c').blobs key) :
    EngineInv c₀ { e.setContainer c' with savedCount := e.savedCount - n } := by
  obtain ⟨saved, hrestores, hsaved, hpool⟩ := h
  by_cases hi : Intact c'
  · have hi' := hintact hi
    obtain ⟨hdur, hnames, hblobs⟩ := hlive saved (hpool.state hi') (hsaved.trans hcur.symm)
    exact ⟨c₀.save c', hrestores.congr hnames hblobs, hcount,
      poolInv_of_container hpool hroom fun _ => hdur⟩
  · exact ⟨{ saved with count := e.savedCount - n },
      hrestores.congr (fun _ => rfl) (fun _ => rfl), rfl,
      poolInv_of_container hpool hroom fun hi' => absurd hi' hi⟩

theorem SafeStep.inv {c₀ : Container} {ev : EngineEvent} {e' : Engine}
    (h : EngineInv c₀ e) (hstep : SafeStep cfg ev e e') : EngineInv c₀ e' := by
  obtain ⟨hsafe, hstep, hroom⟩ := hstep
  cases hstep with
  | @task _ m pool hmove =>
    obtain ⟨saved, hrestores, hsaved, hpool⟩ := h
    refine ⟨saved, hrestores, hsaved, ?_⟩
    refine moves_sound Room.refl @Room.trans hpool ?_ hmove hroom
    intro t hm
    subst hm
    exact wp_resume hsafe hpool.state
  | @writeSnapshot _ tags blobs htags hblobs =>
    obtain ⟨saved, _, _, hpool⟩ := h
    have hfit : SnapshotFits e.container := hsafe
    by_cases hi : Intact e.container
    · have hdur := hpool.state hi
      exact ⟨c₀.save e.container, restores_snapshot hdur hfit htags hblobs, rfl,
        poolInv_of_container hpool hroom fun _ => hdur.resave⟩
    · exact ⟨_, restores_written hfit htags hblobs, rfl,
        poolInv_of_container hpool hroom fun hi' => absurd hi' hi⟩
  | @truncateBlobLog _ i =>
    obtain ⟨hcur, hfront, hdel⟩ := hsafe
    have hle := getD_length_le e.container.blobTxnLogs i
    refine h.truncate hroom (fun hi => ⟨hi.pointers, hi.tags, hi.logs⟩) hcur ?_ ?_
    · show (e.container.blobTxnLogs.set i []).flatten.length + _ = _
      rw [flatten_length_set, ← hcur, Container.recordCount]
      show _ - _ + e.container.tagTxnLogs.flatten.length = _
      omega
    · intro saved hdur hcount
      obtain ⟨hnames, hblobs⟩ := hdur.current hcount.symm
      exact ⟨hdur.truncateBlobLog hcount.symm hfront hdel, hnames, hblobs⟩
  | @truncateTagLog _ i =>
    obtain ⟨hcur, hfront⟩ := hsafe
    have hle := getD_length_le e.container.tagTxnLogs i
    refine h.truncate hroom (fun hi => ⟨hi.pointers, hi.tags, hi.logs⟩) hcur ?_ ?_
    · show _ + (e.container.tagTxnLogs.set i []).flatten.length = _
      rw [flatten_length_set, ← hcur, Container.recordCount]
      show e.container.blobTxnLogs.flatten.length + _ = _
      omega
    · intro saved hdur hcount
      obtain ⟨hnames, hblobs⟩ := hdur.current hcount.symm
      exact ⟨hdur.truncateTagLog hcount.symm hfront, hnames, hblobs⟩

/-! ### Recovery -/

theorem durable_create (targets : Targets) {numLogs : Nat} (hlogs : 0 < numLogs) :
    Durable (Container.create targets numLogs) ⟨fun _ => none, fun _ => none, 0⟩
      (Container.create targets numLogs) := by
  have hne : List.replicate numLogs ([] : List Txn) ≠ [] := by
    rw [← List.length_pos_iff, List.length_replicate]
    exact hlogs
  have hflat : (List.replicate numLogs ([] : List Txn)).flatten = [] := by simp
  have hcount : (Container.create targets numLogs).recordCount = 0 := by
    show (List.replicate numLogs ([] : List Txn)).flatten.length +
      (List.replicate numLogs ([] : List Txn)).flatten.length = 0
    rw [hflat]
    rfl
  refine ⟨SameLevels.refl _, hne, hne, ?_, ?_, ?_, ?_, Nat.zero_le _,
    fun _ => ⟨fun _ => rfl, fun _ => rfl⟩⟩
  · intro name id
    simp [Container.create, Container.tagName?, AMap.empty, AMap.find?]
  · intro id
    simp [Container.create, Container.tagName?, AMap.empty, AMap.find?]
  · intro name
    show replayed _ (List.replicate numLogs []).flatten none = none
    rw [hflat]
    rfl
  · intro key
    show replayed _ (List.replicate numLogs []).flatten
      (replayed _ (List.replicate numLogs []).flatten none) = none
    rw [hflat]
    rfl

/-- What a restart gives is what the container holds. -/
structure Recovered (c : Container) (snapshot : Option Bytes) : Prop where
  names : ∀ name, (c.restart snapshot).tagNameToId.find? name = c.tagNameToId.find? name
  blobs : ∀ key, (c.restart snapshot).blocks? key = (c.blocks? key).map c.nonvolatile

/--
**A crash loses nothing, in runs that keep the logs in order.**  From a new container with
at least one log, tasks of any number of workers run in any interleaving, with snapshots
and truncations between.  If every step meets its condition, then at every point at which
the flags are down and the records fit their headers, a restart rebuilds the ids of all tag
names, and of every blob whether it exists and its non-volatile blocks.
-/
theorem recovered {cfg : Config} {targets : Targets} {numLogs : Nat} {d : Devices}
    {events : List EngineEvent} {e : Engine} (hlogs : 0 < numLogs)
    (h : Along (SafeStep cfg) events (Engine.fresh targets numLogs d) e)
    (hintact : Intact e.container) (htags : RecordsFit e.container.tagTxnLogs)
    (hblobs : RecordsFit e.container.blobTxnLogs) : Recovered e.container e.snapshot := by
  have hinv : EngineInv (Container.create targets numLogs) e := by
    refine h.invariant (fun ev _ v v' hv hstep => SafeStep.inv hv hstep) ?_
    exact ⟨⟨fun _ => none, fun _ => none, 0⟩, restores_none _ 0, rfl,
      fun _ => durable_create targets hlogs, fun x hx => by simp [Engine.fresh] at hx⟩
  obtain ⟨saved, hrestores, _, hpool⟩ := hinv
  have hdur : Durable (Container.create targets numLogs) saved e.container :=
    hpool.state hintact
  refine ⟨?_, ?_⟩
  · intro name
    rw [restart_name htags hblobs, hrestores.names _ hdur.levels]
    exact hdur.names name
  · intro key
    rw [restart_blocks htags hblobs (hrestores.targets _), hrestores.blobs _ hdur.levels,
      blobEffect_of_sameLevels hdur.levels]
    refine (hdur.blobs key).trans ?_
    rw [Container.kept?]
    congr 1
    funext blocks
    exact (nonvolatile_of_sameLevels hdur.levels blocks).symm

/-! ### Scripted runs -/

/-- An event with everything it leaves open.  A snapshot visits the maps as they stand. -/
inductive EngineAct where
  | task (a : Act Task Bdev.Outcome)
  | writeSnapshot
  | truncateBlobLog (i : Nat)
  | truncateTagLog (i : Nat)

def EngineAct.event : EngineAct → EngineEvent
  | task a => .task a.move
  | writeSnapshot => .writeSnapshot
  | truncateBlobLog i => .truncateBlobLog i
  | truncateTagLog i => .truncateTagLog i

/-- The step, if there is such a step. -/
def Engine.act (cfg : Config) (e : Engine) : EngineAct → Option Engine
  | .task a => (e.pool.act Devices.serve (Task.resume cfg) a).map fun pool => { e with pool := pool }
  | .writeSnapshot =>
    some { e with
      snapshot := some (Cte.writeSnapshot e.container.tagIdToInfo.entries e.container.blobEntries)
      savedCount := e.container.recordCount }
  | .truncateBlobLog i =>
    some { e.setContainer (e.container.truncateBlobLog i) with
      savedCount := e.savedCount - (e.container.blobTxnLogs.getD i []).length }
  | .truncateTagLog i =>
    some { e.setContainer (e.container.truncateTagLog i) with
      savedCount := e.savedCount - (e.container.tagTxnLogs.getD i []).length }

theorem steps_act {e' : Engine} {a : EngineAct} (h : e.act cfg a = some e') :
    Engine.Steps cfg a.event e e' := by
  cases a with
  | task a =>
    obtain ⟨pool, hpool, heq⟩ := Option.map_eq_some_iff.mp h
    rw [← heq]
    exact .task (moves_act hpool)
  | writeSnapshot =>
    rw [Engine.act, Option.some.injEq] at h
    rw [← h]
    exact .writeSnapshot (List.Perm.refl _) (List.Perm.refl _)
  | truncateBlobLog i =>
    rw [Engine.act, Option.some.injEq] at h
    rw [← h]
    exact .truncateBlobLog
  | truncateTagLog i =>
    rw [Engine.act, Option.some.injEq] at h
    rw [← h]
    exact .truncateTagLog

/-- The whole script, where every step passes the check. -/
def Engine.script (cfg : Config) (check : Engine → EngineAct → Engine → Bool) :
    List EngineAct → Engine → Option Engine
  | [], e => some e
  | a :: rest, e =>
    match e.act cfg a with
    | some e₁ => if check e a e₁ then Engine.script cfg check rest e₁ else none
    | none => none

theorem along_script {check : Engine → EngineAct → Engine → Bool}
    {step : EngineEvent → Engine → Engine → Prop}
    (hstep : ∀ e a e', Engine.Steps cfg a.event e e' → check e a e' = true → step a.event e e') :
    ∀ {acts : List EngineAct} {e e' : Engine}, Engine.script cfg check acts e = some e' →
      Along step (acts.map EngineAct.event) e e' := by
  intro acts
  induction acts with
  | nil =>
    intro e e' h
    exact (Option.some.inj h).symm
  | cons a rest ih =>
    intro e e' h
    rw [Engine.script] at h
    cases hact : e.act cfg a with
    | none =>
      rw [hact] at h
      simp at h
    | some e₁ =>
      rw [hact] at h
      dsimp only at h
      by_cases hcheck : check e a e₁ = true
      · rw [if_pos hcheck] at h
        exact ⟨e₁, hstep _ _ _ (steps_act hact) hcheck, ih h⟩
      · rw [if_neg hcheck] at h
        simp at h

/-- `Room` of two containers, target by target. -/
def checkRoom (c c' : Container) : Bool :=
  c.targets.map.entries.all fun x =>
    (c'.targets.find? x.1).any fun info' => x.2.remainingSpace ≤ info'.remainingSpace

theorem room_of_check {c c' : Container} (h : checkRoom c c' = true) : Room c c' := by
  intro p info hfind
  have hany := List.all_eq_true.mp h (p, info) (AMap.find?_eq_some_iff.mp hfind)
  dsimp only at hany
  cases hfind' : c'.targets.find? p with
  | none =>
    rw [hfind'] at hany
    simp at hany
  | some info' =>
    rw [hfind', Option.any_some, decide_eq_true_eq] at hany
    exact ⟨info', rfl, hany⟩

instance (x : Bytes × BlobInfo) : Decidable (BlobFits x) :=
  decidable_of_iff (x.1.length < 2 ^ 32 ∧ x.2.blobName.length < 2 ^ 32 ∧ x.2.blocks.length < 2 ^ 32)
    ⟨fun ⟨h₁, h₂, h₃⟩ => ⟨h₁, h₂, h₃⟩, fun h => ⟨h.key, h.name, h.blocks⟩⟩

/-- The condition on a step, checked.  No tag is deleted and no blob log truncated in the
scripts below. -/
def checkSafe (cfg : Config) (e : Engine) (a : EngineAct) (e' : Engine) : Bool :=
  checkRoom e.container e'.container &&
    match a with
    | .task (.start (.getOrCreateTag tagName preferredId) _) =>
      !tagName.isEmpty && !isRemoteTag cfg preferredId &&
        e.container.tagNameToId.entries.all fun x =>
          x.2 ≠ (e.container.newTagId cfg preferredId).1
    | .task (.start (.putBlob _) _) => true
    | .task (.start (.delBlob _ _) _) => true
    | .task (.start _ _) => false
    | .task _ => true
    | .writeSnapshot =>
      decide (∀ x ∈ e.container.tagIdToInfo.entries, x.2.tagName.length < 2 ^ 32) &&
        decide (∀ x ∈ e.container.blobEntries, BlobFits x)
    | .truncateBlobLog _ => false
    | .truncateTagLog i =>
      decide (e.container.recordCount = e.savedCount) &&
        decide ((e.container.tagTxnLogs.take i).flatten = [])

theorem safeStep_of_check (e : Engine) (a : EngineAct) (e' : Engine)
    (hstep : Engine.Steps cfg a.event e e') (h : checkSafe cfg e a e' = true) :
    SafeStep cfg a.event e e' := by
  unfold checkSafe at h
  rw [Bool.and_eq_true] at h
  obtain ⟨hroom, h⟩ := h
  refine ⟨?_, hstep, room_of_check hroom⟩
  cases a with
  | task a =>
    cases a with
    | start t ns =>
      cases t with
      | getOrCreateTag tagName preferredId =>
        simp only [Bool.and_eq_true, Bool.not_eq_true', List.all_eq_true,
          decide_eq_true_eq] at h
        obtain ⟨⟨hname, hlocal⟩, hids⟩ := h
        intro _
        refine ⟨?_, hlocal, ?_⟩
        · intro hnil
          rw [hnil] at hname
          simp at hname
        · intro name hfind
          exact hids _ (AMap.find?_eq_some_iff.mp hfind) rfl
      | putBlob t => trivial
      | delBlob tagId blobName => trivial
      | delTag tagId tagName => simp at h
      | getBlob t => simp at h
      | reorganizeBlob t => simp at h
      | flushData level => simp at h
    | serve i j o => trivial
    | resume i ns => trivial
    | settle j o => trivial
  | writeSnapshot =>
    rw [Bool.and_eq_true, decide_eq_true_eq, decide_eq_true_eq] at h
    exact ⟨h.1, h.2⟩
  | truncateBlobLog i => simp at h
  | truncateTagLog i =>
    rw [Bool.and_eq_true, decide_eq_true_eq, decide_eq_true_eq] at h
    exact h

/-- The small device as a target that keeps its data. -/
def durableTargets : Targets where
  map := ⟨[(ramPool, ⟨ramPool, default, F32.one, 10485760, default, .longTerm⟩)],
    List.nodup_singleton _⟩
  keyed := by decide

/-- A new engine with two workers that log. -/
def durableEngine : Engine := Engine.fresh durableTargets 2 smallRam

/-- A tag, a put, a snapshot while the put waits for its block, and the tag log truncated;
then a delete that was not served when the crash came. -/
def durableScript : List EngineAct :=
  [.task (.start (.getOrCreateTag [97] UniqueId.null) [0]),
    .task (.start (.putBlob (smallPut [1] 0 5 7)) [1]), .writeSnapshot, .truncateTagLog 0,
    .task (.serve 1 0 default), .task (.resume 1 [1]), .task (.serve 1 0 default),
    .task (.resume 1 []), .task (.start (.delBlob ⟨1, 1⟩ [1]) [])]

/-- What the engine is like after it: the flags are down, the records fit, and the blob is
there with its block. -/
def durableState (e : Engine) : Bool :=
  !e.container.dangling && !e.container.raced && e.container.ordered &&
    (e.container.tagTxnLogs.flatten.all fun t => t.payload.length < 2 ^ 32) &&
    (e.container.blobTxnLogs.flatten.all fun t => t.payload.length < 2 ^ 32) &&
    e.container.blocks? (compositeKey ⟨1, 1⟩ [1]) == some [⟨ramPool, default, 0, 5⟩]

theorem recovered_script :
    ∃ e, Along (SafeStep smallConfig) (durableScript.map EngineAct.event) durableEngine e ∧
      e.container.blocks? (compositeKey ⟨1, 1⟩ [1]) = some [⟨ramPool, default, 0, 5⟩] ∧
      Recovered e.container e.snapshot := by
  have hany : (Engine.script smallConfig (checkSafe smallConfig) durableScript durableEngine).any
      durableState = true := by decide +kernel
  obtain ⟨e, hscript, hstate⟩ := (Option.any_eq_true _ _).mp hany
  have hrun := along_script safeStep_of_check hscript
  simp only [durableState, Bool.and_eq_true, Bool.not_eq_true', List.all_eq_true,
    decide_eq_true_eq, beq_iff_eq] at hstate
  obtain ⟨⟨⟨⟨⟨hdangling, hraced⟩, hordered⟩, htags⟩, hblobs⟩, hblocks⟩ := hstate
  exact ⟨e, hrun, hblocks, recovered (by decide) hrun ⟨hdangling, hraced, hordered⟩ htags hblobs⟩

/-- The put is logged by worker 1 and the delete by worker 0. -/
def lostDelete : List EngineAct :=
  [.task (.start (.putBlob (smallPut [1] 0 5 7)) [1]), .task (.serve 0 0 default),
    .task (.resume 0 [1]), .task (.serve 0 0 default), .task (.resume 0 []),
    .task (.start (.delBlob ⟨1, 1⟩ [1]) []), .task (.serve 1 0 default), .task (.resume 1 [0])]

/-- The log of worker 0 is replayed first, so the deleted blob comes back. -/
theorem lost_delete : ¬∀ events e,
    Along (Engine.Steps smallConfig) events durableEngine e →
      Recovered e.container e.snapshot := by
  intro h
  have hany : (Engine.script smallConfig (fun _ _ _ => true) lostDelete durableEngine).any
      (fun e => (e.container.blocks? (compositeKey ⟨1, 1⟩ [1])).isNone &&
        ((e.container.restart e.snapshot).blocks? (compositeKey ⟨1, 1⟩ [1])).isSome) = true := by
    decide +kernel
  obtain ⟨e, hscript, hstate⟩ := (Option.any_eq_true _ _).mp hany
  have hrec := h _ e (along_script (fun _ _ _ hstep _ => hstep) hscript)
  rw [Bool.and_eq_true, Option.isNone_iff_eq_none] at hstate
  rw [hrec.blobs, hstate.1] at hstate
  simp at hstate

end Cte
end IowarpCore
