/-
The pages of the buddy allocator and the lists they are on.

`Core s rep live bodies hands` says what the memory is divided into: the pages in use, the
pages on the free lists and the stretches in `hands`, which an operation has taken and not
put anywhere yet.  No two of them overlap and all lie in the bodies of the regions.  `rep` is
what the lists hold, and a page on a small list is at least as large as its class.

An operation of the allocator is a sequence of moves of stretches and pages: a page is taken
off a list or out of use, a stretch is cut, a stretch becomes a page that is put on a list
or into use.  Each move is one lemma here.
-/
import IowarpCore.Lib.Extents
import IowarpCore.Shm.BuddyAllocator

namespace IowarpCore
namespace Shm

open Extent
open BuddyPage (kHeader kFreeMask)

/-! ### Headers -/

def sizeAt (mem : Offset → BuddyPage) (p : Offset) : Nat := (mem p).getSize

/-- The stretch a page takes, header included. -/
def extentAt (mem : Offset → BuddyPage) (p : Offset) : Extent := (p, kHeader + sizeAt mem p)

theorem getSize_markFree (p : BuddyPage) : p.markFree.getSize = p.getSize := by
  simp [BuddyPage.getSize, BuddyPage.markFree]

theorem getSize_markAllocated (p : BuddyPage) : p.markAllocated.getSize = p.getSize := by
  simp [BuddyPage.getSize, BuddyPage.markAllocated]

theorem getSize_of_lt {p : BuddyPage} (h : p.size < kFreeMask) : p.getSize = p.size :=
  Nat.mod_eq_of_lt h

namespace Buddy

variable {s : Buddy} {p q : Offset} {id : ListId}

/-! ### Chains -/

/-- The links from a head run through these pages. -/
def Chain (mem : Offset → BuddyPage) : OffsetPtr → List Offset → Prop
  | head, [] => head = none
  | head, p :: l => head = some p ∧ Chain mem (mem p).next l

theorem chain_congr {mem mem' : Offset → BuddyPage} {head : OffsetPtr} {l : List Offset}
    (hsame : ∀ p ∈ l, (mem' p).next = (mem p).next) (h : Chain mem head l) : Chain mem' head l := by
  induction l generalizing head with
  | nil => exact h
  | cons p l ih =>
    refine ⟨h.1, ?_⟩
    rw [hsame p (by simp)]
    exact ih (fun q hq => hsame q (List.mem_cons_of_mem _ hq)) h.2

theorem writePage_self (f : BuddyPage → BuddyPage) : (s.writePage p f).mem p = f (s.mem p) := by
  simp [writePage]

theorem writePage_of_ne (f : BuddyPage → BuddyPage) (h : q ≠ p) :
    (s.writePage p f).mem q = s.mem q := by
  simp [writePage, h]

/-! ### The invariant -/

/-- The free lists. -/
def ids : List ListId :=
  (List.range kMaxSmallPages).map .small ++ (List.range kMaxLargePages).map .large

theorem ids_nodup : ids.Nodup := by decide

/-- The pages that are in use or free. -/
def pages (rep : ListId → List Offset) (live : List Offset) : List Offset :=
  live ++ ids.flatMap rep

structure Core (s : Buddy) (rep : ListId → List Offset) (live : List Offset)
    (bodies hands : List Extent) : Prop where
  chains : ∀ id, Chain s.mem (s.lists id).head (rep id)
  counts : ∀ id, (s.lists id).size = (rep id).length
  outside : ∀ id, id ∉ ids → rep id = []
  carved : Carved bodies (hands ++ (pages rep live).map (extentAt s.mem))
  classes : ∀ i, ∀ p ∈ rep (.small i), 2 ^ (i + kMinLog2) ≤ sizeAt s.mem p

section

variable {rep : ListId → List Offset} {live : List Offset} {bodies hands hands' : List Extent}
  {n k : Nat}

theorem mem_pages_of_rep (houtside : ∀ id, id ∉ ids → rep id = []) (h : p ∈ rep id) :
    p ∈ pages rep live := by
  refine List.mem_append_right _ (List.mem_flatMap.mpr ⟨id, ?_, h⟩)
  by_contra hid
  rw [houtside id hid] at h
  exact absurd h List.not_mem_nil

/-- What is in hand may be cut, dropped and rearranged. -/
theorem Core.rehand (h : Core s rep live bodies hands)
    (hcarved : ∀ es, Carved bodies (hands ++ es) → Carved bodies (hands' ++ es)) :
    Core s rep live bodies hands' :=
  ⟨h.chains, h.counts, h.outside, hcarved _ h.carved, h.classes⟩

theorem Core.drop {e : Extent} (h : Core s rep live bodies (e :: hands)) :
    Core s rep live bodies hands :=
  h.rehand fun _ hes => hes.tail

theorem Core.split {m : Nat} (h : Core s rep live bodies ((p, n + m) :: hands)) :
    Core s rep live bodies ((p, n) :: (p + n, m) :: hands) :=
  h.rehand fun _ hes => hes.split

theorem Core.shrink {m : Nat} (h : Core s rep live bodies ((p, n) :: hands)) (hle : m ≤ n) :
    Core s rep live bodies ((p, m) :: hands) :=
  h.rehand fun _ hes => hes.shrink hle

theorem Core.perm (h : Core s rep live bodies hands) (hperm : hands.Perm hands') :
    Core s rep live bodies hands' :=
  h.rehand fun es hes => hes.perm (hperm.append_right es)

/-- A new body is in hand. -/
theorem Core.grow {b : Extent} (h : Core s rep live bodies hands)
    (hnew : ∀ b' ∈ bodies, Apart b b') : Core s rep live (b :: bodies) (b :: hands) :=
  ⟨h.chains, h.counts, h.outside, h.carved.grow hnew, h.classes⟩

/-- The heaps and the list of regions do not matter. -/
theorem Core.congr {s' : Buddy} (h : Core s rep live bodies hands) (hmem : s'.mem = s.mem)
    (hlists : s'.lists = s.lists) : Core s' rep live bodies hands := by
  refine ⟨?_, ?_, h.outside, ?_, ?_⟩
  · rw [hmem, hlists]
    exact h.chains
  · rw [hlists]
    exact h.counts
  · rw [hmem]
    exact h.carved
  · rw [hmem]
    exact h.classes

/-- A stretch in hand does not begin where a page does. -/
theorem Core.not_mem (h : Core s rep live bodies ((p, n) :: hands)) (hpos : 0 < n) :
    p ∉ pages rep live := by
  intro hmem
  have hcarved : Carved bodies ((p, n) :: (hands ++ (pages rep live).map (extentAt s.mem))) :=
    h.carved
  refine hcarved.ne_of_mem hpos (List.mem_append_right _ (List.mem_map_of_mem hmem)) ?_ rfl
  simp only [extentAt, kHeader]
  omega

/-- A write outside of all pages. -/
theorem Core.write (h : Core s rep live bodies hands) (hp : p ∉ pages rep live)
    (f : BuddyPage → BuddyPage) : Core (s.writePage p f) rep live bodies hands := by
  have hsame : ∀ q ∈ pages rep live, (s.writePage p f).mem q = s.mem q := fun q hq =>
    writePage_of_ne f fun heq => hp (heq ▸ hq)
  refine ⟨?_, h.counts, h.outside, ?_, ?_⟩
  · intro id
    refine chain_congr (fun q hq => ?_) (h.chains id)
    rw [hsame q (mem_pages_of_rep h.outside hq)]
  · have hmap : (pages rep live).map (extentAt (s.writePage p f).mem) =
        (pages rep live).map (extentAt s.mem) := by
      refine List.map_congr_left fun q hq => ?_
      rw [extentAt, sizeAt, hsame q hq]
      rfl
    rw [hmap]
    exact h.carved
  · intro i q hq
    rw [sizeAt, hsame q (mem_pages_of_rep h.outside hq)]
    exact h.classes i q hq

/-- A stretch becomes a page in use. -/
theorem Core.use (h : Core s rep live bodies ((p, n) :: hands)) (f : BuddyPage → BuddyPage)
    (hsize : kHeader + (f (s.mem p)).getSize ≤ n) :
    Core (s.writePage p f) rep (p :: live) bodies hands := by
  have hpos : 0 < n := by
    simp only [kHeader] at hsize
    omega
  obtain ⟨hchains, hcounts, houtside, hcarved, hclasses⟩ := h.write (h.not_mem hpos) f
  refine ⟨hchains, hcounts, houtside, ?_, hclasses⟩
  have hshrunk : Carved bodies (extentAt (s.writePage p f).mem p ::
      (hands ++ (pages rep live).map (extentAt (s.writePage p f).mem))) := by
    rw [extentAt, sizeAt, writePage_self]
    exact Carved.shrink hcarved hsize
  exact hshrunk.perm List.perm_middle.symm

/-- The page is taken out of use. -/
theorem Core.release (h : Core s rep live bodies hands) (hp : p ∈ live) :
    Core s rep (live.erase p) bodies (extentAt s.mem p :: hands) := by
  refine ⟨h.chains, h.counts, h.outside, h.carved.perm ?_, h.classes⟩
  have hperm : ((pages rep live).map (extentAt s.mem)).Perm
      (extentAt s.mem p :: (pages rep (live.erase p)).map (extentAt s.mem)) :=
    ((List.perm_cons_erase hp).append_right _).map _
  exact (hperm.append_left hands).trans List.perm_middle

/-- No page is in two places. -/
theorem Core.nodup (h : Core s rep live bodies hands) : (pages rep live).Nodup := by
  have hpairs := (List.pairwise_append.mp h.carved.apart).2.1
  rw [List.pairwise_map] at hpairs
  refine hpairs.imp ?_
  rintro p q hapart rfl
  have hlt : p < (extentAt s.mem p).stop := by
    simp only [extentAt, stop, kHeader]
    exact Nat.lt_add_of_pos_right (by omega)
  rcases hapart with hle | hle
  · exact absurd hle (Nat.not_le_of_lt hlt)
  · exact absurd hle (Nat.not_le_of_lt hlt)

theorem mem_ids_of_mem (houtside : ∀ id, id ∉ ids → rep id = []) (h : p ∈ rep id) : id ∈ ids := by
  by_contra hid
  rw [houtside id hid] at h
  exact absurd h List.not_mem_nil

/-- No page is on two lists. -/
theorem Core.one_list {id' : ListId} (h : Core s rep live bodies hands) (hne : id' ≠ id)
    (hp : p ∈ rep id) : p ∉ rep id' := by
  intro hp'
  have hnodup := (List.nodup_flatMap.mp (List.nodup_append.mp h.nodup).2.1).2
  have hsymm : Std.Symm (Function.onFun List.Disjoint rep) := ⟨fun _ _ hd _ hb ha => hd ha hb⟩
  exact hnodup.forall (mem_ids_of_mem h.outside hp) (mem_ids_of_mem h.outside hp') hne.symm hp hp'

/-- The pages of one list, and the others. -/
theorem pages_update (hid : id ∈ ids) (rep : ListId → List Offset) (live : List Offset) :
    ∃ rest, (pages rep live).Perm (rep id ++ rest) ∧
      ∀ l, (pages (Function.update rep id l) live).Perm (l ++ rest) := by
  obtain ⟨rest, hperm, hupdate⟩ := flatMap_update_perm ids_nodup hid rep
  refine ⟨live ++ rest, ?_, ?_⟩
  · exact (hperm.append_left live).trans (List.perm_append_comm_assoc _ _ _)
  · intro l
    exact ((hupdate l).append_left live).trans (List.perm_append_comm_assoc _ _ _)

/-- One list and the links change, and a page moves from the list into use or back. -/
theorem Core.relist {s' : Buddy} {live' l : List Offset} (h : Core s rep live bodies hands)
    (hid : id ∈ ids) (hsizes : ∀ q, sizeAt s'.mem q = sizeAt s.mem q)
    (hothers : ∀ id', id' ≠ id → s'.lists id' = s.lists id')
    (hlinks : ∀ id', id' ≠ id → ∀ q ∈ rep id', (s'.mem q).next = (s.mem q).next)
    (hchain : Chain s'.mem (s'.lists id).head l) (hcount : (s'.lists id).size = l.length)
    (hpages : (pages rep live).Perm (pages (Function.update rep id l) live'))
    (hclass : ∀ i, id = .small i → ∀ q ∈ l, 2 ^ (i + kMinLog2) ≤ sizeAt s.mem q) :
    Core s' (Function.update rep id l) live' bodies hands := by
  have hextents : extentAt s'.mem = extentAt s.mem := by
    funext q
    rw [extentAt, hsizes]
    rfl
  refine ⟨?_, ?_, ?_, ?_, ?_⟩
  · intro id'
    by_cases heq : id' = id
    · subst heq
      rw [Function.update_self]
      exact hchain
    · rw [Function.update_of_ne heq, hothers id' heq]
      exact chain_congr (hlinks id' heq) (h.chains id')
  · intro id'
    by_cases heq : id' = id
    · subst heq
      rw [Function.update_self]
      exact hcount
    · rw [Function.update_of_ne heq, hothers id' heq]
      exact h.counts id'
  · intro id' hid'
    have heq : id' ≠ id := fun heq => hid' (heq ▸ hid)
    rw [Function.update_of_ne heq]
    exact h.outside id' hid'
  · rw [hextents]
    exact h.carved.perm ((hpages.map _).append_left hands)
  · intro i q hq
    rw [hsizes]
    by_cases heq : ListId.small i = id
    · rw [heq, Function.update_self] at hq
      exact hclass i heq.symm q hq
    · rw [Function.update_of_ne heq] at hq
      exact h.classes i q hq

/-- A page in use is put on a list. -/
theorem Core.emplace (h : Core s rep (p :: live) bodies hands) (hid : id ∈ ids)
    (hclass : ∀ i, id = .small i → 2 ^ (i + kMinLog2) ≤ sizeAt s.mem p) :
    Core (s.emplace id p) (Function.update rep id (p :: rep id)) live bodies hands := by
  have hp : p ∉ pages rep live := (List.nodup_cons.mp h.nodup).1
  have hother : ∀ q, q ≠ p → (s.emplace id p).mem q = s.mem q := fun q hq => by
    rw [Buddy.emplace, setList, writePage_of_ne _ hq]
  refine h.relist hid ?_ ?_ ?_ ⟨?_, ?_⟩ ?_ ?_ ?_
  · intro q
    by_cases heq : q = p
    · subst heq
      rw [sizeAt, Buddy.emplace, setList, writePage_self]
      rfl
    · rw [sizeAt, hother q heq]
      rfl
  · intro id' hne
    simp [Buddy.emplace, setList, writePage, hne]
  · intro id' hne q hq
    rw [hother q fun heq => hp (heq ▸ mem_pages_of_rep h.outside hq)]
  · simp [Buddy.emplace, setList]
  · have hnext : ((s.emplace id p).mem p).next = (s.lists id).head := by
      rw [Buddy.emplace, setList, writePage_self]
    rw [hnext]
    refine chain_congr ?_ (h.chains id)
    intro q hq
    rw [hother q fun heq => hp (heq ▸ mem_pages_of_rep h.outside hq)]
  · simp [Buddy.emplace, setList, h.counts id]
  · obtain ⟨rest, hperm, hupdate⟩ := pages_update hid rep live
    exact (hperm.cons p).trans (hupdate (p :: rep id)).symm
  · intro i heq q hq
    rcases List.mem_cons.mp hq with rfl | hq
    · exact hclass i heq
    · subst heq
      exact h.classes i q hq

/-- A page is taken off a list. -/
theorem Core.pop {l : List Offset} (h : Core s rep live bodies hands) (hrep : rep id = p :: l) :
    ∃ s', s.pop id = (some p, s') ∧ s'.mem = s.mem ∧ s'.smallArena = s.smallArena ∧
      s'.bigHeap = s.bigHeap ∧ Core s' (Function.update rep id l) (p :: live) bodies hands := by
  have hid : id ∈ ids := mem_ids_of_mem h.outside (p := p) (by simp [hrep])
  have hchain := h.chains id
  have hcount := h.counts id
  rw [hrep] at hchain hcount
  refine ⟨s.setList id ⟨(s.lists id).size - 1, (s.mem p).next⟩, ?_, rfl, rfl, rfl, ?_⟩
  · simp [Buddy.pop, hcount, hchain.1]
  · refine h.relist hid (fun _ => rfl) ?_ (fun _ _ _ _ => rfl) ?_ ?_ ?_ ?_
    · intro id' hne
      simp [setList, hne]
    · simpa [setList] using hchain.2
    · simp [setList, hcount]
    · obtain ⟨rest, hperm, hupdate⟩ := pages_update hid rep live
      rw [hrep] at hperm
      exact hperm.trans ((hupdate l).symm.cons p)
    · intro i heq q hq
      subst heq
      exact h.classes i q (by simp [hrep, hq])

/-- Passing over a page in a chain. -/
theorem chain_skip {mem : Offset → BuddyPage} {prev : Offset} {post : List Offset} :
    ∀ {pre : List Offset} {head : OffsetPtr}, Chain mem head (pre ++ prev :: p :: post) →
      (pre ++ prev :: p :: post).Nodup →
      Chain (fun o => if o = prev then { mem o with next := (mem p).next } else mem o) head
        (pre ++ prev :: post) := by
  intro pre
  induction pre with
  | nil =>
    rintro head ⟨hhead, _, hpost⟩ hnodup
    refine ⟨hhead, ?_⟩
    simp only [if_true]
    refine chain_congr ?_ hpost
    intro q hq
    have hne : q ≠ prev := by
      rintro rfl
      exact (List.nodup_cons.mp hnodup).1 (List.mem_cons_of_mem _ hq)
    simp [hne]
  | cons r pre ih =>
    rintro head ⟨hhead, hrest⟩ hnodup
    refine ⟨hhead, ?_⟩
    have hne : r ≠ prev := by
      rintro rfl
      exact (List.nodup_cons.mp hnodup).1 (by simp)
    simp only [hne, if_false]
    exact ih hrest (List.nodup_cons.mp hnodup).2

/-- A page is taken out of the middle of a list. -/
theorem Core.popAt {pre post : List Offset} (h : Core s rep live bodies hands)
    (hrep : rep id = pre ++ p :: post) :
    Core (s.popAt id pre.getLast? p) (Function.update rep id (pre ++ post)) (p :: live) bodies
      hands := by
  have hmem : p ∈ rep id := by simp [hrep]
  have hid : id ∈ ids := mem_ids_of_mem h.outside hmem
  have hcount := h.counts id
  have hchain := h.chains id
  rw [hrep] at hcount hchain
  have hne : ¬(s.lists id).size = 0 := by
    rw [hcount]
    simp
  obtain ⟨rest, hperm, hupdate⟩ := pages_update hid rep live
  have hpages : (pages rep live).Perm (pages (Function.update rep id (pre ++ post)) (p :: live)) := by
    rw [hrep] at hperm
    refine hperm.trans (List.Perm.trans ?_ ((hupdate (pre ++ post)).symm.cons p))
    exact List.perm_middle.append_right rest
  have hclass : ∀ i, id = .small i → ∀ q ∈ pre ++ post, 2 ^ (i + kMinLog2) ≤ sizeAt s.mem q := by
    rintro i rfl q hq
    refine h.classes i q ?_
    rw [hrep]
    rcases List.mem_append.mp hq with hq | hq
    · exact List.mem_append_left _ hq
    · exact List.mem_append_right _ (List.mem_cons_of_mem _ hq)
  rcases List.eq_nil_or_concat pre with rfl | ⟨front, prev, rfl⟩
  · unfold Buddy.popAt
    rw [if_neg hne]
    refine h.relist hid (fun _ => rfl) ?_ (fun _ _ _ _ => rfl) ?_ ?_ hpages hclass
    · intro id' hne'
      simp [setList, hne']
    · simpa [setList] using hchain.2
    · simp [setList, hcount]
  · have hnodup : (rep id).Nodup := (List.nodup_append.mp (hperm.nodup_iff.mp h.nodup)).1
    have hprev : prev ∈ rep id := by simp [hrep]
    unfold Buddy.popAt
    rw [if_neg hne, List.concat_eq_append, List.getLast?_concat]
    refine h.relist hid ?_ ?_ ?_ ?_ ?_ (by rwa [List.concat_eq_append] at hpages)
      (by rwa [List.concat_eq_append] at hclass)
    · intro q
      simp only [sizeAt, setList, writePage, BuddyPage.getSize]
      split <;> rfl
    · intro id' hne'
      simp [setList, writePage, hne']
    · intro id' hne' q hq
      -- A page on another list is not the one in front of `p`.
      have hqp : q ≠ prev := by
        rintro rfl
        exact h.one_list hne' hprev hq
      simp [setList, writePage, hqp]
    · rw [hrep, List.concat_eq_append, List.append_assoc, List.singleton_append] at hnodup
      rw [List.concat_eq_append, List.append_assoc, List.singleton_append] at hchain
      have hskip := chain_skip hchain hnodup
      rw [List.append_assoc, List.singleton_append]
      simpa [setList, writePage] using hskip
    · simp [setList, hcount]

/-- The loop of `FindFirstFit` finds the first page of a list that is large enough. -/
theorem fitLoop_spec (s : Buddy) (rep : ListId → List Offset) (id : ListId) (required : Nat) :
    ∀ {l pre : List Offset} {cur : OffsetPtr} {fuel : Nat}, rep id = pre ++ l →
      Chain s.mem cur l → l.length < fuel →
      (s.fitLoop id required fuel pre.getLast? cur = some (0, s) ∧
        l.find? (fun q => required ≤ sizeAt s.mem q + kHeader) = none) ∨
      ∃ q before post, s.fitLoop id required fuel pre.getLast? cur =
          some (q, s.popAt id (pre ++ before).getLast? q) ∧ rep id = (pre ++ before) ++ q :: post ∧
        l.find? (fun q => required ≤ sizeAt s.mem q + kHeader) = some q := by
  intro l
  induction l with
  | nil =>
    intro pre cur fuel _ hchain hfuel
    obtain ⟨fuel, rfl⟩ : ∃ m, fuel = m + 1 := ⟨fuel - 1, by simp at hfuel; omega⟩
    have hnone : cur = none := hchain
    subst hnone
    exact Or.inl ⟨rfl, rfl⟩
  | cons q l ih =>
    intro pre cur fuel hrep hchain hfuel
    obtain ⟨fuel, rfl⟩ : ∃ m, fuel = m + 1 := ⟨fuel - 1, by omega⟩
    obtain ⟨hcur, hchain⟩ := hchain
    subst hcur
    rw [List.length_cons] at hfuel
    unfold fitLoop
    by_cases hfit : required ≤ sizeAt s.mem q + kHeader
    · refine Or.inr ⟨q, [], l, ?_, by rw [List.append_nil]; exact hrep, ?_⟩
      · simp only [sizeAt] at hfit
        simp [hfit]
      · simp [hfit]
    · have hnext : rep id = (pre ++ [q]) ++ l := by simp [hrep]
      have hskip : ¬(s.mem q).getSize + kHeader ≥ required := hfit
      rcases ih hnext hchain (show _ < fuel by omega) with ⟨hloop, hfind⟩ |
        ⟨q', before, post, hloop, hsplit, hfind⟩
      · rw [List.getLast?_concat] at hloop
        refine Or.inl ⟨?_, ?_⟩
        · simp only [hskip, if_false]
          exact hloop
        · simpa [hfit] using hfind
      · rw [List.getLast?_concat] at hloop
        refine Or.inr ⟨q', q :: before, post, ?_, by simp [hsplit], ?_⟩
        · simp only [hskip, if_false]
          rw [hloop]
          simp
        · simpa [hfit] using hfind

/-! ### What operations leave alone -/

/-- The pages keep their sizes. -/
def Keeps (s s' : Buddy) (live : List Offset) : Prop :=
  ∀ q ∈ live, sizeAt s'.mem q = sizeAt s.mem q

theorem Keeps.trans {s₁ s₂ : Buddy} (h : Keeps s s₁ live) (h' : Keeps s₁ s₂ live) :
    Keeps s s₂ live :=
  fun q hq => (h' q hq).trans (h q hq)

/-- The heaps stay as they are. -/
structure SameHeaps (s s' : Buddy) : Prop where
  smallArena : s'.smallArena = s.smallArena
  bigHeap : s'.bigHeap = s.bigHeap

theorem SameHeaps.trans {s₁ s₂ : Buddy} (h : SameHeaps s s₁) (h' : SameHeaps s₁ s₂) :
    SameHeaps s s₂ :=
  ⟨h'.smallArena.trans h.smallArena, h'.bigHeap.trans h.bigHeap⟩

theorem keeps_write {f : BuddyPage → BuddyPage} (hp : p ∉ pages rep live) :
    Keeps s (s.writePage p f) live := by
  intro q hq
  rw [sizeAt, writePage_of_ne]
  · rfl
  · rintro rfl
    exact hp (List.mem_append_left _ hq)

theorem sizeAt_emplace (q : Offset) : sizeAt (s.emplace id p).mem q = sizeAt s.mem q := by
  simp only [sizeAt, Buddy.emplace, setList, writePage, BuddyPage.getSize]
  split <;> rfl

theorem sizeAt_popAt (prev : OffsetPtr) (q : Offset) :
    sizeAt (s.popAt id prev p).mem q = sizeAt s.mem q := by
  unfold Buddy.popAt
  split
  · rfl
  · split
    · rfl
    · simp only [sizeAt, setList, writePage, BuddyPage.getSize]
      split <;> rfl

theorem sameHeaps_popAt (prev : OffsetPtr) : SameHeaps s (s.popAt id prev p) := by
  unfold Buddy.popAt
  split
  · exact ⟨rfl, rfl⟩
  · split <;> exact ⟨rfl, rfl⟩

/-- `FindFirstFit` takes the first page of a list that is large enough. -/
theorem findFirstFit_spec (h : Core s rep live bodies hands) (hstart : ∀ b ∈ bodies, 0 < b.1)
    (listIdx required : Nat) :
    (s.findFirstFit listIdx required = some (0, s) ∧
      (rep (.large listIdx)).find? (fun q => required ≤ sizeAt s.mem q + kHeader) = none) ∨
    ∃ q s' l, s.findFirstFit listIdx required = some (q, s') ∧ q ≠ 0 ∧
      (rep (.large listIdx)).find? (fun q => required ≤ sizeAt s.mem q + kHeader) = some q ∧
      (∀ r, sizeAt s'.mem r = sizeAt s.mem r) ∧ SameHeaps s s' ∧
      Core s' (Function.update rep (.large listIdx) l) (q :: live) bodies hands ∧
      (rep (.large listIdx)).Perm (q :: l) := by
  have hcount := h.counts (.large listIdx)
  rw [findFirstFit]
  split
  next hzero =>
    have hnil : rep (.large listIdx) = [] := by
      rw [← List.length_eq_zero_iff, ← hcount, hzero]
    exact Or.inl ⟨rfl, by rw [hnil]; rfl⟩
  next =>
    have hfuel : (rep (.large listIdx)).length < (s.lists (.large listIdx)).size + 1 := by omega
    rcases @fitLoop_spec s rep (.large listIdx) required _ [] _ _ rfl (h.chains _) hfuel with
      ⟨hloop, hfind⟩ | ⟨q, before, post, hloop, hrep, hfind⟩
    · exact Or.inl ⟨hloop, hfind⟩
    · have hq : q ∈ pages rep live :=
        mem_pages_of_rep h.outside (show q ∈ rep (.large listIdx) by simp [hrep])
      obtain ⟨b, hb, hle, -⟩ := h.carved.inside (extentAt s.mem q)
        (List.mem_append_right _ (List.mem_map_of_mem hq))
      have hbpos := hstart b hb
      refine Or.inr ⟨q, _, before ++ post, hloop, ?_, hfind, fun r => sizeAt_popAt _ r,
        sameHeaps_popAt _, h.popAt hrep, hrep ▸ List.perm_middle⟩
      rintro rfl
      simp only [extentAt] at hle
      omega

/-- A stretch becomes a free page. -/
theorem Core.addFreePage (h : Core s rep live bodies ((p, n) :: hands)) (hid : id ∈ ids)
    (hsize : kHeader + k ≤ n) (hlt : k < kFreeMask)
    (hclass : ∀ i, id = .small i → 2 ^ (i + kMinLog2) ≤ k) :
    Core (s.addFreePage id p k) (Function.update rep id (p :: rep id)) live bodies hands ∧
      Keeps s (s.addFreePage id p k) live ∧ SameHeaps s (s.addFreePage id p k) := by
  have hget : (BuddyPage.markFree ⟨none, k⟩).getSize = k := by
    rw [getSize_markFree, getSize_of_lt hlt]
  have hpos : 0 < n := by
    simp only [kHeader] at hsize
    omega
  have huse := h.use (fun _ => BuddyPage.markFree ⟨none, k⟩) (by rw [hget]; exact hsize)
  refine ⟨huse.emplace hid ?_, ?_, ⟨rfl, rfl⟩⟩
  · intro i heq
    rw [sizeAt, writePage_self, hget]
    exact hclass i heq
  · intro q hq
    rw [Buddy.addFreePage, sizeAt_emplace]
    exact keeps_write (h.not_mem hpos) q hq

end

end Buddy

end Shm
end IowarpCore
