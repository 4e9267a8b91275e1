/-
Who owns the space of the devices.

`Owns d blocks` says of the blocks the engine holds that on every device their space, a
page at least for each, lies apart from the free space and from each other, and that all
their bytes were handed out by `AllocateBlocks` and not taken back since.  An allocation
that is well served adds one block to what is owned, a `FreeBlocks` request takes away
what it names, and transfers change nothing about it.

`ServesWell` is the server whose allocations are all well served.  Runs under it are the
runs in which the first block of every reply stands for the whole of the reply.
-/
import IowarpCore.Proofs.Allocator
import IowarpCore.Proofs.Put

namespace IowarpCore
namespace Cte

open Bdev (Request Reply Block Devices Device Outcome Allocator AllocInv inSpace)
open Bdev.Allocator (clientExtent)
open Extent (Apart)
open Co

/-! ### Requests and what they leave alone -/

/-- A request that some outcome answers so. -/
abbrev ServesAny : Request → Devices → Reply → Devices → Prop := Serves Devices.serve

/-- As `ServesAny`, where an allocation is well served. -/
def ServesWell (q : Request) (d : Devices) (r : Reply) (d' : Devices) : Prop :=
  ∃ e, Devices.serve e q d = (r, d') ∧
    ∀ dev size, d.devs.find? q.pool = some dev → q.op = .allocateBlocks size →
      dev.alloc.WellServed e.worker size

theorem ServesWell.any {q : Request} {d d' : Devices} {r : Reply} (h : ServesWell q d r d') :
    ServesAny q d r d' := by
  obtain ⟨e, hserve, _⟩ := h
  exact ⟨e, hserve⟩

/-- A request either finds no device and changes nothing, or is handled by one. -/
theorem serve_cases {e : Outcome} {q : Request} {d d' : Devices} {r : Reply}
    (h : Devices.serve e q d = (r, d')) :
    (d.devs.find? q.pool = none ∧ r = ⟨1, [], 0, 0, fun _ => 0⟩ ∧ d' = d) ∨
    ∃ dev, d.devs.find? q.pool = some dev ∧ r = (dev.handle e q.op).1 ∧
      d'.devs = d.devs.insertOrAssign q.pool (dev.handle e q.op).2 ∧
      d'.granted = Function.update d.granted q.pool
        (Devices.account q.op r (d.granted q.pool)) := by
  unfold Devices.serve at h
  cases hfind : d.devs.find? q.pool with
  | none =>
    rw [hfind, Prod.mk.injEq] at h
    exact Or.inl ⟨rfl, h.1.symm, h.2.symm⟩
  | some dev =>
    rw [hfind] at h
    dsimp only at h
    rw [Prod.mk.injEq] at h
    obtain ⟨hr, hd'⟩ := h
    subst hd'
    subst hr
    exact Or.inr ⟨dev, rfl, rfl, rfl, rfl⟩

/-! ### Ownership -/

/-- The extents of the blocks that lie on a device. -/
def extentsOn (p : PoolId) (blocks : List BlobBlock) : List Extent :=
  (blocks.filter fun b => b.bdevClient = p).map fun b => clientExtent b.targetOffset b.size

theorem extentsOn_append (p : PoolId) (bs cs : List BlobBlock) :
    extentsOn p (bs ++ cs) = extentsOn p bs ++ extentsOn p cs := by
  simp [extentsOn]

theorem extentsOn_perm {p : PoolId} {bs cs : List BlobBlock} (h : bs.Perm cs) :
    (extentsOn p bs).Perm (extentsOn p cs) :=
  (h.filter _).map _

/-- The blocks are apart from each other and from all free space, and handed out. -/
structure Owns (d : Devices) (blocks : List BlobBlock) : Prop where
  packed : ∀ p dev, d.devs.find? p = some dev → AllocInv dev.alloc (extentsOn p blocks)
  placed : ∀ b ∈ blocks, (d.devs.find? b.bdevClient).isSome = true
  granted : ∀ b ∈ blocks, ∀ x, b.targetOffset.toNat ≤ x →
    x < b.targetOffset.toNat + b.size.toNat → d.granted b.bdevClient x = true

namespace Owns

variable {d d' : Devices} {bs cs : List BlobBlock}

theorem perm (h : Owns d bs) (hp : bs.Perm cs) : Owns d cs where
  packed p dev hdev := Packed.perm (h.packed p dev hdev) ((extentsOn_perm hp).append_left _)
  placed b hb := h.placed b (hp.mem_iff.mpr hb)
  granted b hb := h.granted b (hp.mem_iff.mpr hb)

/-- Owning less. -/
theorem sublist (h : Owns d bs) (hs : cs.Sublist bs) : Owns d cs where
  packed p dev hdev := Packed.sublist (h.packed p dev hdev)
    (List.Sublist.append_left ((hs.filter _).map _) _)
  placed b hb := h.placed b (hs.subset hb)
  granted b hb := h.granted b (hs.subset hb)

/-- A change of devices that leaves their allocators and the grants alone. -/
theorem congr (h : Owns d bs)
    (hdevs : ∀ p, (d'.devs.find? p).map Device.alloc = (d.devs.find? p).map Device.alloc)
    (hgranted : d'.granted = d.granted) : Owns d' bs where
  packed p dev hdev := by
    have hp := hdevs p
    rw [hdev, Option.map_some] at hp
    obtain ⟨dev₀, hdev₀, halloc⟩ := Option.map_eq_some_iff.mp hp.symm
    rw [← halloc]
    exact h.packed p dev₀ hdev₀
  placed b hb := by
    have hp := congrArg Option.isSome (hdevs b.bdevClient)
    rw [Option.isSome_map, Option.isSome_map] at hp
    rw [hp]
    exact h.placed b hb
  granted b hb := by
    rw [hgranted]
    exact h.granted b hb

/-- Blocks that are owned are apart. -/
theorem apart (h : Owns d bs) :
    bs.Pairwise fun b c => b.bdevClient = c.bdevClient →
      Apart (clientExtent b.targetOffset b.size) (clientExtent c.targetOffset c.size) := by
  have hon : ∀ p, (bs.filter fun b => b.bdevClient = p).Pairwise fun b c =>
      Apart (clientExtent b.targetOffset b.size) (clientExtent c.targetOffset c.size) := by
    intro p
    cases hdev : d.devs.find? p with
    | none =>
      have hnil : (bs.filter fun b => b.bdevClient = p) = [] := by
        rw [List.filter_eq_nil_iff]
        intro b hb hp
        have := h.placed b hb
        rw [decide_eq_true_eq] at hp
        rw [hp, hdev] at this
        simp at this
      rw [hnil]
      exact List.Pairwise.nil
    | some dev =>
      have hpacked := (h.packed p dev hdev).apart
      exact List.pairwise_map.mp (List.pairwise_append.mp hpacked).2.1
  clear h
  induction bs with
  | nil => exact List.Pairwise.nil
  | cons b rest ih =>
    refine List.pairwise_cons.mpr ⟨?_, ih fun p => ?_⟩
    · intro c hc hpool
      have hb := hon b.bdevClient
      rw [List.filter_cons_of_pos (by simp)] at hb
      exact (List.pairwise_cons.mp hb).1 c (List.mem_filter.mpr ⟨hc, by simp [hpool]⟩)
    · exact (hon p).sublist ((List.sublist_cons_self _ _).filter _)

/-- An owned block ends below 2^64. -/
theorem bounded (h : Owns d bs) {b : BlobBlock} (hb : b ∈ bs) :
    b.targetOffset.toNat + b.size.toNat < 2 ^ 64 := by
  obtain ⟨dev, hdev⟩ := Option.isSome_iff_exists.mp (h.placed b hb)
  have hmem : clientExtent b.targetOffset b.size ∈ extentsOn b.bdevClient bs :=
    List.mem_map.mpr ⟨b, List.mem_filter.mpr ⟨hb, by simp⟩, rfl⟩
  have hbelow := (h.packed _ dev hdev).below _ (List.mem_append_right _ hmem)
  have hlt := dev.alloc.heap.heap.toNat_lt
  have hstop : b.targetOffset.toNat + max b.size.toNat 4096 ≤ dev.alloc.heap.heap.toNat := hbelow
  omega

end Owns

/-! ### What each request does to ownership -/

section

variable {d d' : Devices} {r : Reply} {bs : List BlobBlock}

/-- The device at a pool after the one at another was replaced. -/
theorem find_replaced {m : AMap PoolId Device} {p p' : PoolId} {dev dev' : Device}
    (h : (m.insertOrAssign p dev').find? p' = some dev) :
    (p' = p ∧ dev = dev') ∨ (p' ≠ p ∧ m.find? p' = some dev) := by
  rw [AMap.find?_insertOrAssign] at h
  by_cases hp : p' = p
  · rw [if_pos hp, Option.some.injEq] at h
    exact Or.inl ⟨hp, h.symm⟩
  · rw [if_neg hp] at h
    exact Or.inr ⟨hp, h⟩

theorem isSome_replaced {m : AMap PoolId Device} {p p' : PoolId} {dev' : Device}
    (h : (m.find? p').isSome = true) : ((m.insertOrAssign p dev').find? p').isSome = true := by
  rw [AMap.find?_insertOrAssign]
  by_cases hp : p' = p
  · rw [if_pos hp]
    rfl
  · rw [if_neg hp]
    exact h

/-- Reads and writes leave the allocators alone. -/
theorem Owns.transfer {q : Request} (h : Owns d bs) (hs : ServesAny q d r d')
    (hop : ∀ n l, q.op ≠ .allocateBlocks n ∧ q.op ≠ .freeBlocks l) : Owns d' bs := by
  obtain ⟨e, hserve⟩ := hs
  rcases serve_cases hserve with ⟨_, _, hd'⟩ | ⟨dev, hdev, _, hdevs, hgranted⟩
  · rw [hd']
    exact h
  · have halloc : (dev.handle e q.op).2.alloc = dev.alloc := by
      cases hq : q.op with
      | allocateBlocks n => exact absurd hq (hop n []).1
      | freeBlocks l => exact absurd hq (hop 0 l).2
      | write block data length => rfl
      | read block length => rfl
    have haccount : Devices.account q.op r (d.granted q.pool) = d.granted q.pool := by
      cases hq : q.op with
      | allocateBlocks n => exact absurd hq (hop n []).1
      | freeBlocks l => exact absurd hq (hop 0 l).2
      | write block data length => rfl
      | read block length => rfl
    refine h.congr ?_ ?_
    · intro p
      rw [hdevs, AMap.find?_insertOrAssign]
      by_cases hp : p = q.pool
      · rw [if_pos hp, hp, hdev, Option.map_some, Option.map_some, halloc]
      · rw [if_neg hp]
    · rw [hgranted, haccount, Function.update_eq_self]

/-- A well served allocation adds the block its first block stands for. -/
theorem Owns.allocate {p : PoolId} {query : PoolQuery} {size : UInt64} (h : Owns d bs)
    (hs : ServesWell ⟨p, query, .allocateBlocks size⟩ d r d') :
    (r.blocks = [] ∧ Owns d' bs) ∨
    ∃ b rest, r.blocks = b :: rest ∧ Owns d' (⟨p, query, b.offset, size⟩ :: bs) := by
  obtain ⟨e, hserve, hwell⟩ := hs
  rcases serve_cases hserve with ⟨_, hr, hd'⟩ | ⟨dev, hdev, hr, hdevs, hgranted⟩
  · rw [hr, hd']
    exact Or.inl ⟨rfl, h⟩
  · have hserved := hwell dev size hdev rfl
    obtain ⟨rc, blocks, a', halloc⟩ : ∃ rc blocks a',
        dev.alloc.allocateBlocks e.worker size = ((rc, blocks), a') := ⟨_, _, _, rfl⟩
    have hhandle : dev.handle e (.allocateBlocks size) =
        (⟨rc, blocks, 0, 0, fun _ => 0⟩, { dev with alloc := a' }) := by
      simp only [Device.handle, Device.allocateBlocks, halloc]
    simp only [hhandle] at hr hdevs hgranted
    have hblocks : r.blocks = blocks := by rw [hr]
    -- What was granted stays granted.
    have hmono : ∀ p' x, d.granted p' x = true → d'.granted p' x = true := by
      intro p' x hx
      rw [hgranted]
      by_cases hp : p' = p
      · rw [hp] at hx
        rw [hp, Function.update_self]
        simp only [Devices.account, hx, Bool.true_or]
      · rw [Function.update_of_ne hp]
        exact hx
    rcases Allocator.allocateBlocks_spec hserved (h.packed p dev hdev) halloc with
      ⟨hnil, hinv⟩ | ⟨b, rest, hcons, hinv, hcover⟩
    · refine Or.inl ⟨by rw [hblocks, hnil], ?_, ?_, ?_⟩
      · intro p' dev' hdev'
        rw [hdevs] at hdev'
        rcases find_replaced hdev' with ⟨hp, hnew⟩ | ⟨_, hold⟩
        · rw [hp, hnew]
          exact hinv
        · exact h.packed p' dev' hold
      · intro b hb
        rw [hdevs]
        exact isSome_replaced (h.placed b hb)
      · intro b hb x hle hlt
        exact hmono _ _ (h.granted b hb x hle hlt)
    · refine Or.inr ⟨b, rest, by rw [hblocks, hcons], ?_, ?_, ?_⟩
      · intro p' dev' hdev'
        rw [hdevs] at hdev'
        rcases find_replaced hdev' with ⟨hp, hnew⟩ | ⟨hp, hold⟩
        · rw [hp, hnew, extentsOn, List.filter_cons_of_pos (by simp)]
          exact hinv
        · rw [extentsOn, List.filter_cons_of_neg (by simpa using Ne.symm hp)]
          exact h.packed p' dev' hold
      · intro c hc
        rw [hdevs]
        rcases List.mem_cons.mp hc with hc | hc
        · rw [hc, AMap.find?_insertOrAssign_self]
          rfl
        · exact isSome_replaced (h.placed c hc)
      · intro c hc x hle hlt
        rcases List.mem_cons.mp hc with hc | hc
        · subst hc
          rw [hgranted, Function.update_self]
          simp only [Devices.account, hblocks, hcover x hle hlt, Bool.or_true]
        · exact hmono _ _ (h.granted c hc x hle hlt)

/-- A block of a blob as `FreeBlocks` gets it. -/
def BlobBlock.freed (b : BlobBlock) : Block := ⟨b.targetOffset, b.size, 0⟩

/-- The space of a freed block is what its owner held. -/
theorem inSpace_freed {b : BlobBlock} {x : Nat} :
    inSpace b.freed x = true ↔ b.targetOffset.toNat ≤ x ∧
      x < b.targetOffset.toNat + max b.size.toNat 4096 := by
  have hpage : (Bdev.kBlockSizes.getD (0 : UInt32).toNat 0).toNat = 4096 := by decide
  unfold inSpace Bdev.capacity BlobBlock.freed
  rw [hpage, Bool.and_eq_true, decide_eq_true_iff, decide_eq_true_iff]

/-- Freeing owned blocks of one device leaves the others owned. -/
theorem Owns.free {p : PoolId} {query : PoolQuery} {gone : List BlobBlock}
    (hgone : ∀ b ∈ gone, b.bdevClient = p) (h : Owns d (gone ++ bs))
    (hs : ServesAny ⟨p, query, .freeBlocks (gone.map BlobBlock.freed)⟩ d r d') : Owns d' bs := by
  have hrest : Owns d bs := h.sublist (List.sublist_append_right _ _)
  obtain ⟨e, hserve⟩ := hs
  rcases serve_cases hserve with ⟨_, _, hd'⟩ | ⟨dev, hdev, _, hdevs, hgranted⟩
  · rw [hd']
    exact hrest
  · refine ⟨?_, ?_, ?_⟩
    · intro p' dev' hdev'
      rw [hdevs] at hdev'
      rcases find_replaced hdev' with ⟨hp, hnew⟩ | ⟨_, hold⟩
      · rw [hp, hnew]
        refine Allocator.freeBlocks_spec ?_ ?_
        · intro b hb
          obtain ⟨c, _, hc⟩ := List.mem_map.mp hb
          rw [← hc]
          rfl
        · have hinv := h.packed p dev hdev
          rw [extentsOn_append] at hinv
          have hall : (gone.filter fun b => b.bdevClient = p) = gone := by
            rw [List.filter_eq_self]
            intro b hb
            simpa using hgone b hb
          rw [extentsOn, hall] at hinv
          rw [List.map_map]
          exact hinv
      · exact hrest.packed p' dev' hold
    · intro b hb
      rw [hdevs]
      exact isSome_replaced (hrest.placed b hb)
    · intro b hb x hle hlt
      rw [hgranted]
      by_cases hp : b.bdevClient = p
      · -- The freed blocks are apart from what stays.
        have hold := hrest.granted b hb x hle hlt
        rw [hp] at hold
        rw [hp, Function.update_self]
        simp only [Devices.account, hold, Bool.true_and]
        rw [Bool.not_eq_true', List.any_eq_false]
        intro c hc
        obtain ⟨g, hg, hcg⟩ := List.mem_map.mp hc
        have hapart := (List.pairwise_append.mp h.apart).2.2 g hg b hb ((hgone g hg).trans hp.symm)
        rw [← hcg, inSpace_freed]
        exact hapart.symm.not_mem ⟨hle, by
          show x < b.targetOffset.toNat + max b.size.toNat 4096
          omega⟩
      · rw [Function.update_of_ne hp]
        exact hrest.granted b hb x hle hlt

/-! ### Helpers of the blob operations -/

/-- The group of a pool holds the blocks on it, in their order. -/
theorem find?_groupByPool (blocks : List BlobBlock) (p : PoolId) :
    (((groupByPool blocks).find? p).map Prod.snd).getD [] =
      (blocks.filter fun b => b.bdevClient = p).map BlobBlock.freed ∧
    (((groupByPool blocks).find? p).isSome = true ↔ ∃ b ∈ blocks, b.bdevClient = p) := by
  have hfold : ∀ (bs : List BlobBlock) (m : PoolBlocks),
      (((bs.foldl groupBlock m).find? p).map Prod.snd).getD [] =
        ((m.find? p).map Prod.snd).getD [] ++
          (bs.filter fun b => b.bdevClient = p).map BlobBlock.freed ∧
      (((bs.foldl groupBlock m).find? p).isSome = true ↔
        (m.find? p).isSome = true ∨ ∃ b ∈ bs, b.bdevClient = p) := by
    intro bs
    induction bs with
    | nil =>
      intro m
      simp
    | cons b bs ih =>
      intro m
      obtain ⟨hblocks, hsome⟩ := ih (groupBlock m b)
      rw [List.foldl_cons, hblocks, hsome]
      unfold groupBlock
      by_cases hp : b.bdevClient = p
      · rw [List.filter_cons_of_pos (by simpa using hp), hp, AMap.find?_insertOrAssign_self]
        refine ⟨?_, by simp [hp]⟩
        rw [List.map_cons]
        cases hfind : m.find? p with
        | none => simp [BlobBlock.freed]
        | some x => simp [BlobBlock.freed]
      · rw [List.filter_cons_of_neg (by simpa using hp),
          AMap.find?_insertOrAssign_of_ne _ _ (Ne.symm hp)]
        simp [hp]
  have h := hfold blocks AMap.empty
  simpa [groupByPool, AMap.empty, AMap.find?] using h

theorem Owns.freesAll (gone : List BlobBlock) (groups : List (PoolId × PoolQuery × List Block)) :
    ∀ {d : Devices}, (groups.map Prod.fst).Nodup →
      (∀ g ∈ groups, g.2.2 = (gone.filter fun b => b.bdevClient = g.1).map BlobBlock.freed) →
      Owns d ((gone.filter fun b => b.bdevClient ∈ groups.map Prod.fst) ++ bs) →
      FreesAll ServesWell groups d d' → Owns d' bs := by
  induction groups with
  | nil =>
    intro d _ _ h hd'
    unfold FreesAll at hd'
    rw [hd']
    exact h.sublist (List.sublist_append_right _ _)
  | cons g rest ih =>
    intro d hnodup hgroups h hfrees
    obtain ⟨pool, query, blocks⟩ := g
    obtain ⟨r, d₁, hserve, hfrees⟩ := hfrees
    rw [List.map_cons, List.nodup_cons] at hnodup
    have hblocks := hgroups ⟨pool, query, blocks⟩ (by simp)
    dsimp only at hblocks
    rw [hblocks] at hserve
    refine ih hnodup.2 (fun g hg => hgroups g (List.mem_cons_of_mem _ hg)) ?_ hfrees
    have hpool : ∀ b ∈ gone.filter fun b => b.bdevClient = pool, b.bdevClient = pool := by
      intro b hb
      simpa using (List.mem_filter.mp hb).2
    refine Owns.free hpool ?_ hserve.any
    -- The blocks of the first group are those of its pool; no other group has them.
    refine h.perm ?_
    rw [← List.append_assoc]
    refine List.Perm.append_right bs ?_
    have hsplit := List.filter_append_perm (fun b : BlobBlock => b.bdevClient = pool)
      (gone.filter fun b => b.bdevClient ∈ (⟨pool, query, blocks⟩ :: rest).map Prod.fst)
    rw [List.filter_filter, List.filter_filter] at hsplit
    refine hsplit.symm.trans (List.Perm.of_eq (congrArg₂ _ ?_ ?_))
    · refine List.filter_congr fun b _ => ?_
      by_cases hb : b.bdevClient = pool
      · simp [hb]
      · simp [hb]
    · refine List.filter_congr fun b _ => ?_
      by_cases hb : b.bdevClient = pool
      · have hnot : pool ∉ rest.map Prod.fst := hnodup.1
        simp only [List.mem_map, Prod.exists, exists_and_right, exists_eq_right] at hnot
        simpa [hb] using hnot
      · simp [hb]

/-- Freed blocks are owned no longer, and the others still are. -/
theorem Owns.freesBlocks {gone : List BlobBlock} (h : Owns d (gone ++ bs))
    (hfrees : FreesBlocks ServesWell gone d d') : Owns d' bs := by
  obtain ⟨groups, hperm, hfrees⟩ := hfrees
  have hentry : ∀ g ∈ groups, (groupByPool gone).find? g.1 = some g.2 := by
    intro g hg
    exact AMap.find?_eq_some_iff.mpr (hperm.mem_iff.mp hg)
  refine Owns.freesAll gone groups ?_ ?_ ?_ hfrees
  · exact (hperm.map Prod.fst).nodup_iff.mpr (groupByPool gone).nodup
  · intro g hg
    have hblocks := (find?_groupByPool gone g.1).1
    rw [hentry g hg] at hblocks
    exact hblocks
  · have hall : (gone.filter fun b => b.bdevClient ∈ groups.map Prod.fst) = gone := by
      rw [List.filter_eq_self]
      intro b hb
      have hsome := (find?_groupByPool gone b.bdevClient).2.mpr ⟨b, hb, rfl⟩
      obtain ⟨x, hx⟩ := Option.isSome_iff_exists.mp hsome
      have hmem := hperm.mem_iff.mpr (AMap.find?_eq_some_iff.mp hx)
      simpa using List.mem_map_of_mem (f := Prod.fst) hmem
    rw [hall]
    exact h

theorem Owns.allocsFail {size : UInt64} (h : Owns d bs) (hfails : AllocsFail ServesWell size d d') :
    Owns d' bs := by
  induction hfails with
  | refl => exact h
  | tail _ hstep ih =>
    obtain ⟨pool, query, r, hserve, hnil⟩ := hstep
    rcases ih.allocate hserve with ⟨_, howns⟩ | ⟨b, rest, hcons, _⟩
    · exact howns
    · rw [hnil] at hcons
      simp at hcons

theorem Owns.grants {size : UInt64} {new : BlobBlock} (h : Owns d bs)
    (hgrants : Grants ServesWell size new d d') : Owns d' (new :: bs) := by
  obtain ⟨d₁, pool, query, r, b, rest, hfails, hserve, hblocks, hnew⟩ := hgrants
  rcases (h.allocsFail hfails).allocate hserve with ⟨hnil, _⟩ | ⟨b', rest', hcons, howns⟩
  · rw [hnil] at hblocks
    simp at hblocks
  · rw [hblocks, List.cons.injEq] at hcons
    rw [hnew, hcons.1]
    exact howns

/-- The writes of a put are writes. -/
theorem writes_op {t : PutBlobTask} {data : Nat → UInt8} {blocks : List BlobBlock} {q : Request}
    (h : q ∈ t.writes data blocks) : ∃ block f length, q.op = .write block f length := by
  obtain ⟨p, _, hq⟩ := List.mem_map.mp h
  rw [← hq]
  exact ⟨_, _, _, rfl⟩

theorem Owns.writes {t : PutBlobTask} {data : Nat → UInt8} {blocks : List BlobBlock}
    {err : UInt32} (h : Owns d bs) (hwrites : Writes ServesWell (t.writes data blocks) err d d') :
    Owns d' bs := by
  obtain ⟨all, hserve, _⟩ := hwrites
  refine hserve.invariant (I := fun d => Owns d bs) ?_ h
  intro q hq d₀ r₀ d₁ howns hs
  obtain ⟨block, f, length, hop⟩ := writes_op hq
  exact howns.transfer hs.any fun n l => by simp [hop]

end

end Cte
end IowarpCore
