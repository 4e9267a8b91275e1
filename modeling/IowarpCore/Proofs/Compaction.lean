/-
What compaction does to the pages in use.

The scan goes from header to header, so it is right exactly as long as headers lie behind
each other without a hole.  `compactLoop_spec` follows it along a tiling of the heap: bytes
from the cursor on are still what they were, since a page moves down and the pages before it
have made room, and each page in use is found at the place `placed` says.

The table has its entries in ascending order, as the scan records them, and the search finds
each of them.
-/
import IowarpCore.Proofs.BuddyTiling
import IowarpCore.Shm.Compaction

namespace IowarpCore
namespace Shm

open Extent
open BuddyPage (kHeader kFreeMask)

/-! ### Bytes -/

namespace Memory

variable {m m' : Memory} {off off' : Nat}

theorem word_congr (h : ∀ k < 8, m' (off' + k) = m (off + k)) : m'.word off' = m.word off := by
  rw [word, word]
  refine congrArg leNat (List.map_congr_left fun k hk => h k ?_)
  exact List.mem_range.mp hk

/-- The size in a header whose bytes are those of another. -/
theorem sizeField_congr (h : ∀ k < kHeader, m' (off' + k) = m (off + k)) :
    m'.sizeField off' = m.sizeField off := by
  refine word_congr fun k hk => ?_
  rw [Nat.add_assoc, Nat.add_assoc]
  exact h (8 + k) (by simp only [kHeader]; omega)

theorem storeWord_word (off : Nat) (m : Memory) : m.storeWord off (m.word off) = m := by
  funext o
  unfold storeWord
  by_cases hin : off ≤ o ∧ o < off + 8
  · have hlength : ((List.range 8).map fun k => m (off + k)).length = 8 := by simp
    have hbytes := leBytes_leNat ((List.range 8).map fun k => m (off + k))
    rw [hlength] at hbytes
    have hlt : o - off < 8 := by omega
    have hsum : off + (o - off) = o := by omega
    rw [if_pos hin, word, hbytes, List.getD_eq_getElem?_getD, List.getElem?_map,
      List.getElem?_range hlt, Option.map_some, Option.getD_some, hsum]
  · rw [if_neg hin]

/-- The flag of a page in use is clear already. -/
theorem markAllocated_of_used (h : m.sizeField off < kFreeMask) : m.markAllocated off = m := by
  rw [markAllocated, Nat.mod_eq_of_lt h]
  exact storeWord_word _ m

theorem memmove_inside {dst src n k : Nat} (hk : k < n) : m.memmove dst src n (dst + k) = m (src + k) := by
  rw [memmove, if_pos ⟨Nat.le_add_right dst k, Nat.add_lt_add_left hk dst⟩, Nat.add_sub_cancel_left]

theorem memmove_outside {dst src n o : Nat} (h : o < dst ∨ dst + n ≤ o) :
    m.memmove dst src n o = m o := by
  rw [memmove, if_neg (by omega)]

end Memory

/-! ### The search -/

namespace ForwardingTable

variable {t : ForwardingTable} {oldOff newOff : Nat}

/-- The search finds an entry that is within its bounds. -/
theorem resolveLoop_spec (hsorted : t.entries.Pairwise fun e f => e.1 < f.1) (fuel : Nat) :
    ∀ {lo hi i : Nat}, hi - lo < fuel → hi ≤ t.entries.length → lo ≤ i → i < hi →
      t.entries[i]? = some (oldOff, newOff) → t.resolveLoop oldOff fuel lo hi = newOff := by
  induction fuel with
  | zero =>
    intro lo hi i hfuel
    omega
  | succ fuel ih =>
    intro lo hi i hfuel hlength hlo hhi hentry
    have hmid : (lo + hi) / 2 < t.entries.length := by omega
    have hi' : i < t.entries.length := by omega
    have hget : t.entries.getD ((lo + hi) / 2) (0, 0) = t.entries[(lo + hi) / 2] := by
      rw [List.getD_eq_getElem?_getD, List.getElem?_eq_getElem hmid, Option.getD_some]
    rw [List.getElem?_eq_getElem hi', Option.some.injEq] at hentry
    have horder := List.pairwise_iff_getElem.mp hsorted
    unfold resolveLoop
    rw [if_pos (by omega)]
    dsimp only
    rw [hget]
    rcases Nat.lt_trichotomy ((lo + hi) / 2) i with hlt | heq | hgt
    · -- The entry is to the right.
      have hless := horder _ _ hmid hi' hlt
      rw [hentry] at hless
      rw [if_neg (Nat.ne_of_lt hless), if_pos hless]
      exact ih (by omega) hlength (by omega) hhi (by rw [List.getElem?_eq_getElem hi', hentry])
    · subst heq
      rw [hentry, if_pos rfl]
    · have hmore := horder _ _ hi' hmid hgt
      rw [hentry] at hmore
      rw [if_neg (Nat.ne_of_gt hmore), if_neg (Nat.lt_asymm hmore)]
      exact ih (by omega) (by omega) hlo hgt (by rw [List.getElem?_eq_getElem hi', hentry])

/-- What is in a table in ascending order is found. -/
theorem resolve_of_mem (hsorted : t.entries.Pairwise fun e f => e.1 < f.1)
    (h : (oldOff, newOff) ∈ t.entries) : t.resolve oldOff = newOff := by
  obtain ⟨i, hi⟩ := List.mem_iff_getElem?.mp h
  obtain ⟨hlt, -⟩ := List.getElem?_eq_some_iff.mp hi
  exact resolveLoop_spec hsorted _ (by omega) (Nat.le_refl _) (Nat.zero_le i) hlt hi

end ForwardingTable

/-! ### The scan -/

namespace Buddy

/-- Where pages go, one behind the other from `w` on. -/
def placed (size : Nat → Nat) : Nat → List Nat → List (Nat × Nat)
  | _, [] => []
  | w, p :: ps => (p, w) :: placed size (w + (kHeader + size p)) ps

/-- The stretches they take there. -/
def places (size : Nat → Nat) (w : Nat) (ps : List Nat) : List Extent :=
  (placed size w ps).map fun x => (x.2, kHeader + size x.1)

variable {size : Nat → Nat} {w : Nat} {ps : List Nat}

theorem map_fst_placed : (placed size w ps).map Prod.fst = ps := by
  induction ps generalizing w with
  | nil => rfl
  | cons p ps ih => rw [placed, List.map_cons, ih]

theorem tiles_places (size : Nat → Nat) (w : Nat) (ps : List Nat) : Tiles w (places size w ps) (w + total (places size w ps)) := by
  induction ps generalizing w with
  | nil => rfl
  | cons p ps ih =>
    refine ⟨rfl, ?_⟩
    have htail := ih (w + (kHeader + size p))
    rw [Nat.add_assoc] at htail
    exact htail

variable {arena : Heap} {scanEnd : Nat} {m m₀ m' : Memory} {e : Extent} {es : List Extent}

/-- The scan stands at what is left of the small arena. -/
def AtTail (arena : Heap) (cursor : Nat) : Prop :=
  cursor = arena.heap ∧ arena.heap < arena.maxOffset

instance (arena : Heap) (cursor : Nat) : Decidable (AtTail arena cursor) :=
  inferInstanceAs (Decidable (_ ∧ _))

/-- A stretch that the scan passes over as a whole: what is left of the small arena, or a page
with its header. -/
def Passes (arena : Heap) (m : Memory) (e : Extent) : Prop :=
  if AtTail arena e.1 then e.stop = arena.maxOffset else e.2 = kHeader + m.getSize e.1

/-- The pages that the scan moves. -/
def kept (arena : Heap) (m : Memory) (es : List Extent) : List Nat :=
  (es.filter fun e => !AtTail arena e.1 && !m.isFree e.1).map Prod.fst

theorem Passes.pos (h : Passes arena m e) : 0 < e.2 := by
  unfold Passes at h
  by_cases htail : AtTail arena e.1
  · obtain ⟨hcursor, hlt⟩ := htail
    rw [if_pos ⟨hcursor, hlt⟩, stop] at h
    omega
  · rw [if_neg htail] at h
    simp only [kHeader] at h
    omega

theorem kept_perm {fs : List Extent} (h : es.Perm fs) : (kept arena m es).Perm (kept arena m fs) :=
  (h.filter _).map _

theorem kept_append (es fs : List Extent) :
    kept arena m (es ++ fs) = kept arena m es ++ kept arena m fs := by
  rw [kept, List.filter_append, List.map_append]
  rfl

theorem kept_eq_nil (h : ∀ e ∈ es, AtTail arena e.1 ∨ m.isFree e.1 = true) :
    kept arena m es = [] := by
  rw [kept, List.map_eq_nil_iff, List.filter_eq_nil_iff]
  intro e he
  rcases h e he with h | h
  · simp [h]
  · simp [h]

theorem kept_eq_map (h : ∀ e ∈ es, ¬AtTail arena e.1 ∧ m.isFree e.1 = false) :
    kept arena m es = es.map Prod.fst := by
  rw [kept, List.filter_eq_self.mpr]
  intro e he
  obtain ⟨hnot, hused⟩ := h e he
  simp [hnot, hused]

theorem kept_cons_skipped (h : AtTail arena e.1 ∨ m.isFree e.1 = true) :
    kept arena m (e :: es) = kept arena m es := by
  rw [kept, List.filter_cons_of_neg]
  · rfl
  · rcases h with h | h
    · simp [h]
    · simp [h]

theorem kept_cons_used (h : ¬AtTail arena e.1) (hused : m.isFree e.1 = false) :
    kept arena m (e :: es) = e.1 :: kept arena m es := by
  rw [kept, List.filter_cons_of_pos (by simp [h, hused])]
  rfl

/-- Bytes of a header that are what they were. -/
theorem header_of_eq {cursor : Nat} (h : ∀ o, cursor ≤ o → m o = m₀ o) :
    m.sizeField cursor = m₀.sizeField cursor :=
  Memory.sizeField_congr fun k _ => h (cursor + k) (Nat.le_add_right _ _)

/-- Along stretches without a hole, the scan moves each page in use behind the one before. -/
theorem compactLoop_spec : ∀ {es : List Extent} (entries : List (Nat × Nat))
    {fuel cursor w : Nat} {m : Memory}, es.length < fuel → Tiles cursor es scanEnd →
      (∀ e ∈ es, Passes arena m₀ e) → w ≤ cursor → (∀ o, cursor ≤ o → m o = m₀ o) →
    ∃ m', compactLoop scanEnd arena fuel cursor w m ⟨entries⟩ =
        some (m', ⟨entries ++ (placed m₀.getSize w (kept arena m₀ es)).map
            fun x => (x.1 + kHeader, x.2 + kHeader)⟩,
          w + total (places m₀.getSize w (kept arena m₀ es))) ∧
      (∀ o < w, m' o = m o) ∧
      ∀ x ∈ placed m₀.getSize w (kept arena m₀ es), ∀ k < kHeader + m₀.getSize x.1,
        m' (x.2 + k) = m₀ (x.1 + k) := by
  intro es
  induction es with
  | nil =>
    intro entries fuel cursor w m hfuel htiles _ _ _
    obtain ⟨fuel, rfl⟩ : ∃ n, fuel = n + 1 := ⟨fuel - 1, by simp at hfuel; omega⟩
    refine ⟨m, ?_, fun _ _ => rfl, fun x hx => absurd hx List.not_mem_nil⟩
    rw [compactLoop, if_neg (Nat.not_lt.mpr (Nat.le_of_eq htiles.symm))]
    simp [kept, placed, places, total]
  | cons e es ih =>
    intro entries fuel cursor w m hfuel htiles hpasses hle hsame
    obtain ⟨fuel, rfl⟩ : ∃ n, fuel = n + 1 := ⟨fuel - 1, by omega⟩
    obtain ⟨hstart, hrest⟩ := htiles
    have hpass := hpasses e List.mem_cons_self
    have hpos := hpass.pos
    have hlt : cursor < scanEnd := by
      have hend := hrest.le
      rw [stop] at hend
      omega
    have hpasses' : ∀ f ∈ es, Passes arena m₀ f := fun f hf => hpasses f (List.mem_cons_of_mem _ hf)
    have hfuel' : es.length < fuel := by simpa using hfuel
    unfold compactLoop
    rw [if_pos hlt]
    by_cases htail : AtTail arena cursor
    · -- The cursor is set behind what is left of the arena.
      rw [Passes, hstart, if_pos htail] at hpass
      rw [hpass] at hrest
      have hbehind : cursor ≤ arena.maxOffset := by
        rw [← hpass, stop, hstart]
        exact Nat.le_add_right _ _
      have hskips : cursor = arena.heap ∧ arena.heap < arena.maxOffset := htail
      rw [if_pos hskips, kept_cons_skipped (Or.inl (hstart ▸ htail))]
      exact ih entries hfuel' hrest hpasses' (Nat.le_trans hle hbehind)
        (fun o ho => hsame o (Nat.le_trans hbehind ho))
    · rw [Passes, hstart, if_neg htail] at hpass
      have hfield := header_of_eq hsame
      have hsize : m.getSize cursor = m₀.getSize cursor := by
        rw [Memory.getSize, Memory.getSize, hfield]
      have hnext : e.stop = cursor + (kHeader + m₀.getSize cursor) := by rw [stop, hstart, hpass]
      rw [hnext] at hrest
      have hreads : ¬(cursor = arena.heap ∧ arena.heap < arena.maxOffset) := htail
      rw [if_neg hreads, hsize]
      dsimp only
      have hflag : m.isFree cursor = m₀.isFree cursor := by
        rw [Memory.isFree, Memory.isFree, hfield]
      cases hfree : m₀.isFree cursor with
      | true =>
        rw [hflag, hfree, if_pos rfl, kept_cons_skipped (Or.inr (hstart ▸ hfree))]
        exact ih entries hfuel' hrest hpasses' (Nat.le_trans hle (Nat.le_add_right _ _))
          (fun o ho => hsame o (Nat.le_trans (Nat.le_add_right _ _) ho))
      | false =>
        rw [hflag, hfree, if_neg (by simp), kept_cons_used (hstart ▸ htail) (hstart ▸ hfree),
          hstart]
        generalize hmoved : (if w ≠ cursor then
          m.memmove w cursor (kHeader + m₀.getSize cursor) else m) = moved
        -- The page stands at the place it was moved to, and only that was written.
        have hinside : ∀ k < kHeader + m₀.getSize cursor, moved (w + k) = m₀ (cursor + k) := by
          intro k hk
          rw [← hsame (cursor + k) (Nat.le_add_right _ _), ← hmoved]
          by_cases heq : w ≠ cursor
          · rw [if_pos heq]
            exact Memory.memmove_inside hk
          · rw [if_neg heq, Decidable.not_not.mp heq]
        have houtside : ∀ o, o < w ∨ w + (kHeader + m₀.getSize cursor) ≤ o → moved o = m o := by
          intro o ho
          rw [← hmoved]
          by_cases heq : w ≠ cursor
          · rw [if_pos heq]
            exact Memory.memmove_outside ho
          · rw [if_neg heq]
        have hused : moved.sizeField w < kFreeMask := by
          rw [Memory.sizeField_congr fun k hk =>
            hinside k (Nat.lt_of_lt_of_le hk (Nat.le_add_right _ _))]
          simpa [Memory.isFree] using hfree
        rw [Memory.markAllocated_of_used hused, ForwardingTable.record]
        dsimp only
        obtain ⟨m', hloop, hbelow, hplaced⟩ := ih
          (entries ++ [(cursor + kHeader, w + kHeader)]) hfuel' hrest hpasses'
          (Nat.add_le_add_right hle (kHeader + m₀.getSize cursor)) (m := moved)
          (fun o ho => by
            rw [houtside o (Or.inr (Nat.le_trans (Nat.add_le_add_right hle _) ho))]
            exact hsame o (Nat.le_trans (Nat.le_add_right _ _) ho))
        refine ⟨m', ?_, ?_, ?_⟩
        · rw [hloop]
          simp [placed, places, total, Nat.add_assoc]
        · intro o ho
          rw [hbelow o (Nat.lt_of_lt_of_le ho (Nat.le_add_right _ _)), houtside o (Or.inl ho)]
        · intro x hx k hk
          rcases List.mem_cons.mp hx with rfl | hx
          · rw [hbelow _ (Nat.add_lt_add_left hk w)]
            exact hinside k hk
          · exact hplaced x hx k hk

end Buddy

/-! ### The heap as the scan sees it -/

namespace BuddyUse

open Buddy

variable {u : BuddyUse} {m : Memory} {dataOff dataSize : Nat}

/-- The headers of pages are in the memory; anything else may be there besides. -/
structure Holds (u : BuddyUse) (m : Memory) : Prop where
  headers : ∀ p ∈ pages u.alloc.pagesOf (u.live.map pageOf), m.sizeField p = (u.alloc.mem p).size

/-- Up to the big heap the scan passes over one stretch after another, and the pages in use are
those that it moves. -/
theorem OneTiled.blocks (h : OneTiled (dataOff, dataSize) u) (hm : Holds u m) :
    ∃ es, Tiles (dataOff + kHeader) es u.alloc.bigHeap.heap ∧
      (∀ e ∈ es, Passes u.alloc.smallArena m e) ∧
      (kept u.alloc.smallArena m es).Perm (u.live.map pageOf) := by
  obtain ⟨rep, hfull, htiled⟩ := h.full
  obtain ⟨es, hperm, htiles⟩ := htiled.tiles hfull
  have hcarved := htiled.exact.core.carved
  have hrep : u.alloc.pagesOf = rep := funext hfull.core.pagesOf
  have hheaders := hm.headers
  rw [hrep] at hheaders
  have hnotTail : ∀ p ∈ pages rep (u.live.map pageOf), ¬AtTail u.alloc.smallArena p := by
    rintro p hp ⟨rfl, hlt⟩
    have hspare : (u.alloc.smallArena.heap, u.alloc.smallArena.maxOffset - u.alloc.smallArena.heap) ∈
        spare u.alloc.smallArena ++ spare u.alloc.bigHeap :=
      List.mem_append_left _ (mem_spare.mpr ⟨hlt, rfl⟩)
    have hapart := (List.pairwise_append.mp hcarved.apart).2.2 _ hspare _ (List.mem_map_of_mem hp)
    simp only [Apart, extentAt, stop, kHeader] at hapart
    omega
  have hspareTail : ∀ e ∈ spare u.alloc.smallArena, AtTail u.alloc.smallArena e.1 := by
    intro e he
    obtain ⟨hlt, rfl⟩ := mem_spare.mp he
    exact ⟨rfl, hlt⟩
  refine ⟨es, htiles, fun e he => ?_, ?_⟩
  · rcases List.mem_append.mp (hperm.mem_iff.mpr he) with hspare | hpage
    · obtain ⟨hlt, rfl⟩ := mem_spare.mp hspare
      rw [Passes, if_pos ⟨rfl, hlt⟩, stop]
      dsimp only
      omega
    · obtain ⟨p, hp, rfl⟩ := List.mem_map.mp hpage
      have hnot : ¬AtTail u.alloc.smallArena (extentAt u.alloc.mem p).1 := hnotTail p hp
      rw [Passes, if_neg hnot]
      simp only [extentAt]
      rw [Memory.getSize, hheaders p hp]
      rfl
  · refine (kept_perm hperm).symm.trans ?_
    have hfree : ∀ p ∈ ids.flatMap rep, m.isFree p = true := by
      intro p hp
      obtain ⟨id, -, hid⟩ := List.mem_flatMap.mp hp
      rw [Memory.isFree, hheaders p (List.mem_append_right _ hp)]
      exact decide_eq_true (htiled.exact.free id p hid)
    have hused : ∀ p ∈ u.live.map pageOf, m.isFree p = false := by
      intro p hp
      rw [Memory.isFree, hheaders p (List.mem_append_left _ hp)]
      exact decide_eq_false (Nat.not_le.mpr (htiled.exact.used p hp))
    rw [pages, List.map_append, kept_append, kept_append, kept_eq_nil, kept_eq_map, kept_eq_nil]
    · rw [List.nil_append, List.append_nil, List.map_map]
      have hfst : (Prod.fst ∘ extentAt u.alloc.mem) = id := rfl
      rw [hfst, List.map_id]
    · intro e he
      obtain ⟨p, hp, rfl⟩ := List.mem_map.mp he
      exact Or.inr (hfree p hp)
    · intro e he
      obtain ⟨p, hp, rfl⟩ := List.mem_map.mp he
      exact ⟨hnotTail p (List.mem_append_left _ hp), hused p hp⟩
    · exact fun e he => Or.inl (hspareTail e he)

/-! ### Compaction -/

/-- The table leads from every pointer in use to a page with the same size and the same bytes,
and those pages lie behind each other from the start of the heap up to the new big heap. -/
structure Preserved (u : BuddyUse) (dataOff : Nat) (m : Memory) (r : Compacted) : Prop where
  sizes : ∀ e ∈ u.live, r.memory.getSize (r.table.resolve e.1 - kHeader) = m.getSize (pageOf e)
  data : ∀ e ∈ u.live, ∀ k < m.getSize (pageOf e),
    r.memory (r.table.resolve e.1 + k) = m (e.1 + k)
  packed : ∃ es, es.Perm (u.live.map fun e =>
      (r.table.resolve e.1 - kHeader, kHeader + m.getSize (pageOf e))) ∧
    Tiles (dataOff + kHeader) es r.bigHeap.heap

/-- Compaction of a heap without a hole. -/
theorem compact_spec (h : OneTiled (dataOff, dataSize) u) (hm : Holds u m) :
    ∃ r, compact dataOff u.alloc m = some r ∧ Preserved u dataOff m r := by
  obtain ⟨es, htiles, hpasses, hkept⟩ := h.blocks hm
  have hpos : ∀ e ∈ es, 0 < e.2 := fun e he => (hpasses e he).pos
  have hfuel : es.length < u.alloc.bigHeap.heap - (dataOff + kHeader) + 1 := by
    have hlength := htiles.length_le hpos
    omega
  obtain ⟨m', hloop, -, hplaced⟩ := compactLoop_spec [] hfuel htiles hpasses
    (Nat.le_refl _) (fun _ _ => rfl)
  have hascending : (kept u.alloc.smallArena m es).Pairwise (· < ·) := by
    rw [kept, List.pairwise_map]
    exact (htiles.ascending hpos).1.filter _
  have hfst : (placed m.getSize (dataOff + kHeader) (kept u.alloc.smallArena m es)).map Prod.fst =
      kept u.alloc.smallArena m es := map_fst_placed
  have hplaces : places m.getSize (dataOff + kHeader) (kept u.alloc.smallArena m es) =
      (placed m.getSize (dataOff + kHeader) (kept u.alloc.smallArena m es)).map
        fun x => (x.2, kHeader + m.getSize x.1) := rfl
  have htilesNew := tiles_places m.getSize (dataOff + kHeader) (kept u.alloc.smallArena m es)
  rw [List.nil_append] at hloop
  generalize places m.getSize (dataOff + kHeader) (kept u.alloc.smallArena m es) = new at *
  generalize placed m.getSize (dataOff + kHeader) (kept u.alloc.smallArena m es) = moves at *
  have hsorted : (moves.map fun x => (x.1 + kHeader, x.2 + kHeader)).Pairwise
      fun e f => e.1 < f.1 := by
    rw [← hfst, List.pairwise_map] at hascending
    rw [List.pairwise_map]
    exact hascending.imp fun hlt => Nat.add_lt_add_right hlt kHeader
  refine ⟨_, by rw [compact, hloop]; rfl, ?_⟩
  have hresolve : ∀ x ∈ moves, ForwardingTable.resolve (x.1 + kHeader)
      ⟨moves.map fun x => (x.1 + kHeader, x.2 + kHeader)⟩ = x.2 + kHeader :=
    fun x hx => ForwardingTable.resolve_of_mem hsorted (List.mem_map_of_mem hx)
  have hmove : ∀ e ∈ u.live, ∃ x ∈ moves, x.1 = pageOf e ∧ x.1 + kHeader = e.1 := by
    intro e he
    have hmem : pageOf e ∈ moves.map Prod.fst := by
      rw [hfst]
      exact hkept.mem_iff.mpr (List.mem_map_of_mem he)
    obtain ⟨x, hx, hpage⟩ := List.mem_map.mp hmem
    refine ⟨x, hx, hpage, ?_⟩
    rw [hpage]
    exact pageOf_add (h.good.pointers e he)
  refine ⟨fun e he => ?_, fun e he k hk => ?_, ⟨new, ?_, htilesNew⟩⟩
  · obtain ⟨x, hx, hpage, hptr⟩ := hmove e he
    rw [← hptr, ← hpage]
    simp only [hresolve x hx, Nat.add_sub_cancel]
    rw [Memory.getSize, Memory.getSize, Memory.sizeField_congr fun k hk =>
      hplaced x hx k (Nat.lt_of_lt_of_le hk (Nat.le_add_right _ _))]
  · obtain ⟨x, hx, hpage, hptr⟩ := hmove e he
    rw [← hpage] at hk
    rw [← hptr]
    simp only [hresolve x hx]
    rw [Nat.add_assoc, Nat.add_assoc]
    exact hplaced x hx (kHeader + k) (Nat.add_lt_add_left hk kHeader)
  · have hnew : new = (moves.map Prod.fst).map fun p =>
        (ForwardingTable.resolve (p + kHeader)
          ⟨moves.map fun x => (x.1 + kHeader, x.2 + kHeader)⟩ - kHeader, kHeader + m.getSize p) := by
      rw [hplaces, List.map_map]
      refine List.map_congr_left fun x hx => ?_
      simp only [Function.comp, hresolve x hx, Nat.add_sub_cancel]
    rw [hnew, hfst]
    refine (hkept.map _).trans (List.Perm.of_eq ?_)
    rw [List.map_map]
    refine List.map_congr_left fun e he => ?_
    have hptr := pageOf_add (h.good.pointers e he)
    simp only [Function.comp]
    rw [hptr]

/--
**When compaction preserves what is in use.**  In a run of legal and tame steps from `shm_init`,
none of which leaves a hole, every state can be compacted: for any memory that holds its headers,
the scan ends, and the table leads from each pointer in use to the same size and the same bytes,
in pages that lie behind each other from the start of the heap up to the new big heap.
-/
theorem compact_of_run {mem : Offset → BuddyPage} (hheader : kHeader ≤ dataSize)
    (hbound : dataOff + dataSize ≤ kFreeMask) {ops : List BuddyOp}
    (hsteps : Each (fun op u => Legal op u ∧ Tame op u ∧ Whole op u) ops
      (shmInit dataOff dataSize mem)) (n : Nat) :
    ∃ u, run (ops.take n) (shmInit dataOff dataSize mem) = some u ∧
      ∀ m, Holds u m → ∃ r, compact dataOff u.alloc m = some r ∧ Preserved u dataOff m r := by
  obtain ⟨u, hrun, htiled⟩ := run_tiled hsteps (oneTiled_shmInit hheader hbound mem) n
  exact ⟨u, hrun, fun m hm => compact_spec htiled hm⟩

/-- A run with pages from the big heap, the arena and both kinds of lists, and one that is cut. -/
def wholePages : List BuddyOp :=
  [.allocate 100, .allocate 100, .allocate 20000, .allocate 17000, .free (some 71712),
    .allocate 120, .free (some 71856), .allocate 19000, .reallocate (some 4128) 600]

theorem compact_of_run_wholePages :
    Each (fun op u => Legal op u ∧ Tame op u ∧ Whole op u) wholePages
      (shmInit 4096 262144 blank) ∧
    ∃ u, run (wholePages.take 9) (shmInit 4096 262144 blank) = some u ∧
      ∀ m, Holds u m → ∃ r, compact 4096 u.alloc m = some r ∧ Preserved u 4096 m r := by
  have hsteps : Each (fun op u => Legal op u ∧ Tame op u ∧ Whole op u) wholePages
      (shmInit 4096 262144 blank) := by decide +kernel
  exact ⟨hsteps, compact_of_run (by decide) (by decide) hsteps 9⟩

/-- A large page is freed, and becomes an arena that is 2432 bytes shorter. -/
def shortArena : List BuddyOp := [.allocate 70000, .free (some 4128), .allocate 100]

/-- What had the large page filled it with ones; the header of the small one says 128. -/
def filled : Memory := fun o =>
  if 74136 ≤ o ∧ o < 74144 then (leBytes 8 128).getD (o - 74136) 0 else 255

/-- Behind the arena the scan takes ones for a free page that goes beyond the end.  It stops,
has found no page in use, and gives the heap away from its start on. -/
theorem hole_loses_pages :
    Each (fun op u => Legal op u ∧ Tame op u) shortArena (shmInit 4096 70232 blank) ∧
    ∃ u, run shortArena (shmInit 4096 70232 blank) = some u ∧ Holds u filled ∧
      ¬∃ r, compact 4096 u.alloc filled = some r ∧ Preserved u 4096 filled r := by
  refine ⟨by decide +kernel, ?_⟩
  have hreturns : (run shortArena (shmInit 4096 70232 blank)).isSome := by decide +kernel
  obtain ⟨u, hrun⟩ := Option.isSome_iff_exists.mp hreturns
  have hstate : ∀ u ∈ run shortArena (shmInit 4096 70232 blank), u.live = [(74144, 100)] ∧
      (∀ p ∈ pages u.alloc.pagesOf (u.live.map pageOf),
        filled.sizeField p = (u.alloc.mem p).size) ∧
      (compact 4096 u.alloc filled).map (fun r => r.bigHeap.heap) = some 4112 := by
    decide +kernel
  obtain ⟨hlive, hheaders, hheap⟩ := hstate u hrun
  refine ⟨u, hrun, ⟨hheaders⟩, ?_⟩
  rintro ⟨r, hcompact, hpreserved⟩
  rw [hcompact, Option.map_some, Option.some.injEq] at hheap
  obtain ⟨es, hperm, htiles⟩ := hpreserved.packed
  rw [hheap] at htiles
  have hlength := hperm.length_eq
  rw [hlive, List.map_cons, List.map_nil, List.length_singleton] at hlength
  obtain ⟨e, rfl⟩ := List.length_eq_one_iff.mp hlength
  rw [hlive, List.map_cons, List.map_nil, List.singleton_perm_singleton] at hperm
  obtain ⟨hstart, hstop⟩ := htiles
  have hsize : kHeader ≤ e.2 := by
    rw [hperm]
    exact Nat.le_add_right _ _
  have hend : e.1 + e.2 = 4112 := hstop
  simp only [kHeader] at hstart hsize
  omega

end BuddyUse

end Shm
end IowarpCore
