/-
Extents below a bound, no two of which overlap.

An extent is a start and a length.  `Packed es top` is the invariant of an allocator that
hands out space from below `top`: the extents are apart and end at or before `top`.
It does not depend on their order; it survives forgetting an extent, keeping less of
one, and raising the bound; and whatever lies between the old bound and a new one may
be added.
-/
import Mathlib.Data.List.Perm.Basic
import Mathlib.Data.List.Pairwise

namespace IowarpCore

/-- A start and a length. -/
abbrev Extent := Nat × Nat

namespace Extent

def stop (e : Extent) : Nat := e.1 + e.2

/-- The extents have no position in common. -/
def Apart (e f : Extent) : Prop := e.stop ≤ f.1 ∨ f.stop ≤ e.1

instance (e f : Extent) : Decidable (Apart e f) := inferInstanceAs (Decidable (_ ∨ _))

theorem Apart.symm {e f : Extent} (h : Apart e f) : Apart f e := Or.symm h

/-- A position of one is not a position of the other. -/
theorem Apart.not_mem {e f : Extent} (h : Apart e f) {a : Nat} (he : e.1 ≤ a ∧ a < e.stop) :
    ¬(f.1 ≤ a ∧ a < f.stop) := by
  rcases h with h | h
  · omega
  · omega

theorem Apart.shrink {e e' f : Extent} (h : Apart e f) (hstart : e.1 ≤ e'.1)
    (hstop : e'.stop ≤ e.stop) : Apart e' f := by
  rcases h with h | h
  · exact Or.inl (by omega)
  · exact Or.inr (by omega)

end Extent

open Extent

/-- Pairwise apart and not above `top`. -/
structure Packed (es : List Extent) (top : Nat) : Prop where
  apart : es.Pairwise Apart
  below : ∀ e ∈ es, e.stop ≤ top

namespace Packed

variable {es fs : List Extent} {e e' : Extent} {top top' : Nat}

theorem nil (top : Nat) : Packed [] top := ⟨List.Pairwise.nil, by simp⟩

theorem perm (h : Packed es top) (hp : es.Perm fs) : Packed fs top :=
  ⟨(hp.pairwise_iff fun h => Apart.symm h).mp h.apart, fun e he => h.below e (hp.mem_iff.mpr he)⟩

theorem mono (h : Packed es top) (hle : top ≤ top') : Packed es top' :=
  ⟨h.apart, fun e he => Nat.le_trans (h.below e he) hle⟩

theorem sublist (h : Packed es top) (hs : fs.Sublist es) : Packed fs top :=
  ⟨h.apart.sublist hs, fun e he => h.below e (hs.subset he)⟩

/-- Keeping less of an extent. -/
theorem shrink (h : Packed (e :: es) top) (hstart : e.1 ≤ e'.1) (hstop : e'.stop ≤ e.stop) :
    Packed (e' :: es) top := by
  obtain ⟨hhead, htail⟩ := List.pairwise_cons.mp h.apart
  refine ⟨List.pairwise_cons.mpr ⟨?_, htail⟩, ?_⟩
  · intro f hf
    exact (hhead f hf).shrink hstart hstop
  · intro f hf
    rcases List.mem_cons.mp hf with hf | hf
    · rw [hf]
      exact Nat.le_trans hstop (h.below e (by simp))
    · exact h.below f (List.mem_cons_of_mem _ hf)

/-- Keeping less of several extents. -/
theorem shrink_map {α : Type} {f g : α → Extent} {xs : List α}
    (hless : ∀ x ∈ xs, (f x).1 ≤ (g x).1 ∧ (g x).stop ≤ (f x).stop) :
    ∀ {es : List Extent}, Packed (xs.map f ++ es) top → Packed (xs.map g ++ es) top := by
  induction xs with
  | nil =>
    intro es h
    exact h
  | cons x xs ih =>
    intro es h
    obtain ⟨hstart, hstop⟩ := hless x (by simp)
    have hx : Packed (g x :: (xs.map f ++ es)) top := h.shrink hstart hstop
    have hmoved : Packed (xs.map f ++ (g x :: es)) top := hx.perm List.perm_middle.symm
    have hrest := ih (fun y hy => hless y (List.mem_cons_of_mem _ hy)) hmoved
    exact hrest.perm List.perm_middle

/-- Adding what lies above the bound. -/
theorem push (h : Packed es top) (hstart : top ≤ e.1) (hstop : e.stop ≤ top')
    (hle : top ≤ top') : Packed (e :: es) top' := by
  refine ⟨List.pairwise_cons.mpr ⟨?_, h.apart⟩, ?_⟩
  · intro f hf
    exact Or.inr (Nat.le_trans (h.below f hf) hstart)
  · intro f hf
    rcases List.mem_cons.mp hf with hf | hf
    · rw [hf]
      exact hstop
    · exact Nat.le_trans (h.below f hf) hle

end Packed

/-- Pairwise apart, and each inside one of the bodies. -/
structure Carved (bodies es : List Extent) : Prop where
  apart : es.Pairwise Apart
  inside : ∀ e ∈ es, ∃ b ∈ bodies, b.1 ≤ e.1 ∧ e.stop ≤ b.stop

namespace Carved

variable {bodies es fs : List Extent} {b e : Extent} {p n m : Nat}

theorem perm (h : Carved bodies es) (hp : es.Perm fs) : Carved bodies fs :=
  ⟨(hp.pairwise_iff fun h => Apart.symm h).mp h.apart, fun e he => h.inside e (hp.mem_iff.mpr he)⟩

theorem sublist (h : Carved bodies es) (hs : fs.Sublist es) : Carved bodies fs :=
  ⟨h.apart.sublist hs, fun e he => h.inside e (hs.subset he)⟩

theorem tail (h : Carved bodies (e :: es)) : Carved bodies es := h.sublist (List.sublist_cons_self _ _)

/-- Cutting an extent in two. -/
theorem split (h : Carved bodies ((p, n + m) :: es)) :
    Carved bodies ((p, n) :: (p + n, m) :: es) := by
  obtain ⟨hhead, htail⟩ := List.pairwise_cons.mp h.apart
  obtain ⟨b, hb, hstart, hstop⟩ := h.inside (p, n + m) (by simp)
  simp only [stop] at hstart hstop
  refine ⟨List.pairwise_cons.mpr ⟨?_, List.pairwise_cons.mpr ⟨?_, htail⟩⟩, ?_⟩
  · intro f hf
    rcases List.mem_cons.mp hf with rfl | hf
    · exact Or.inl (by simp [stop])
    · exact (hhead f hf).shrink (Nat.le_refl _) (by simp [stop])
  · intro f hf
    exact (hhead f hf).shrink (by simp) (by simp [stop]; omega)
  · intro f hf
    rcases List.mem_cons.mp hf with rfl | hf
    · exact ⟨b, hb, hstart, by simp only [stop]; omega⟩
    rcases List.mem_cons.mp hf with rfl | hf
    · exact ⟨b, hb, by simp only; omega, by simp only [stop]; omega⟩
    · exact h.inside f (List.mem_cons_of_mem _ hf)

/-- Keeping the front of an extent. -/
theorem shrink (h : Carved bodies ((p, n) :: es)) (hle : m ≤ n) : Carved bodies ((p, m) :: es) := by
  obtain ⟨k, rfl⟩ := Nat.exists_eq_add_of_le hle
  exact h.split.sublist (List.Sublist.cons_cons _ (List.sublist_cons_self _ _))

/-- A new body, apart from the others. -/
theorem grow (h : Carved bodies es) (hnew : ∀ b' ∈ bodies, Apart b b') :
    Carved (b :: bodies) (b :: es) := by
  refine ⟨List.pairwise_cons.mpr ⟨?_, h.apart⟩, ?_⟩
  · intro e he
    obtain ⟨b', hb', hstart, hstop⟩ := h.inside e he
    exact ((hnew b' hb').symm.shrink hstart hstop).symm
  · intro e he
    rcases List.mem_cons.mp he with rfl | he
    · exact ⟨e, by simp, Nat.le_refl _, Nat.le_refl _⟩
    · obtain ⟨b', hb', hinside⟩ := h.inside e he
      exact ⟨b', List.mem_cons_of_mem _ hb', hinside⟩

/-- Extents that are not empty start at different positions. -/
theorem ne_of_mem (h : Carved bodies ((p, n) :: es)) (hpos : 0 < n) (he : e ∈ es)
    (hpos' : 0 < e.2) : p ≠ e.1 := by
  rintro rfl
  rcases (List.pairwise_cons.mp h.apart).1 e he with hle | hle
  · simp only [stop] at hle
    omega
  · simp only [stop] at hle
    omega

end Carved

/-! ### Tilings -/

namespace Extent

/-- One extent after another from `a` to `b`, with nothing between them. -/
def Tiles : Nat → List Extent → Nat → Prop
  | a, [], b => a = b
  | a, e :: es, b => e.1 = a ∧ Tiles e.stop es b

/-- The sizes of extents together. -/
def total : List Extent → Nat
  | [] => 0
  | e :: es => e.2 + total es

section

variable {es fs : List Extent} {a b : Nat}

@[simp] theorem total_append (es fs : List Extent) : total (es ++ fs) = total es + total fs := by
  induction es with
  | nil => simp [total]
  | cons e es ih => rw [List.cons_append, total, ih, total, Nat.add_assoc]

theorem total_perm (h : es.Perm fs) : total es = total fs := by
  induction h with
  | nil => rfl
  | cons e _ ih => rw [total, ih, total]
  | swap e f es => exact Nat.add_left_comm f.2 e.2 (total es)
  | trans _ _ ih ih' => exact ih.trans ih'

theorem Tiles.le : ∀ {es : List Extent} {a : Nat}, Tiles a es b → a ≤ b := by
  intro es
  induction es with
  | nil =>
    intro a h
    exact Nat.le_of_eq h
  | cons e es ih =>
    intro a h
    obtain ⟨rfl, hrest⟩ := h
    exact Nat.le_trans (Nat.le_add_right e.1 e.2) (ih hrest)

/-- Extents that are not empty are no more than the positions. -/
theorem Tiles.length_le : ∀ {es : List Extent} {a : Nat}, Tiles a es b → (∀ e ∈ es, 0 < e.2) →
    a + es.length ≤ b := by
  intro es
  induction es with
  | nil =>
    intro a h _
    exact Nat.le_of_eq h
  | cons e es ih =>
    intro a h hpos
    obtain ⟨rfl, hrest⟩ := h
    have he := hpos e List.mem_cons_self
    have hle := ih hrest fun f hf => hpos f (List.mem_cons_of_mem _ hf)
    simp only [stop, List.length_cons] at *
    omega

/-- The extents of a tiling start behind each other. -/
theorem Tiles.ascending : ∀ {es : List Extent} {a : Nat}, Tiles a es b → (∀ e ∈ es, 0 < e.2) →
    es.Pairwise (fun e f => e.1 < f.1) ∧ ∀ e ∈ es, a ≤ e.1 := by
  intro es
  induction es with
  | nil =>
    intro a _ _
    exact ⟨List.Pairwise.nil, fun e he => absurd he List.not_mem_nil⟩
  | cons e es ih =>
    intro a h hpos
    obtain ⟨rfl, hrest⟩ := h
    have he := hpos e List.mem_cons_self
    obtain ⟨hpairs, hbelow⟩ := ih hrest fun f hf => hpos f (List.mem_cons_of_mem _ hf)
    simp only [stop] at hbelow
    refine ⟨List.pairwise_cons.mpr ⟨fun f hf => ?_, hpairs⟩, fun f hf => ?_⟩
    · have := hbelow f hf
      omega
    · rcases List.mem_cons.mp hf with rfl | hf
      · exact Nat.le_refl _
      · have := hbelow f hf
        omega

/-- Extents in order have no more room than they take, and tile it if they take it all. -/
theorem tiles_of_sorted : ∀ {es : List Extent} {a : Nat},
    es.Pairwise (fun e f => e.stop ≤ f.1) → (∀ e ∈ es, a ≤ e.1 ∧ e.stop ≤ b) → a ≤ b →
      a + total es ≤ b ∧ (b ≤ a + total es → Tiles a es b) := by
  intro es
  induction es with
  | nil =>
    intro a _ _ hle
    exact ⟨hle, fun hge => Nat.le_antisymm hle hge⟩
  | cons e es ih =>
    intro a hsorted hinside _
    obtain ⟨hhead, htail⟩ := List.pairwise_cons.mp hsorted
    obtain ⟨hstart, hstop⟩ := hinside e List.mem_cons_self
    obtain ⟨hle, htiles⟩ := ih htail
      (fun f hf => ⟨hhead f hf, (hinside f (List.mem_cons_of_mem _ hf)).2⟩) hstop
    rw [total]
    simp only [stop] at hle htiles
    refine ⟨by omega, fun hge => ?_⟩
    have heq : e.1 = a := by omega
    exact ⟨heq, htiles (by omega)⟩

/-- Extents that do not overlap tile a stretch if together they are as long. -/
theorem exists_tiles (hapart : es.Pairwise Apart) (hpos : ∀ e ∈ es, 0 < e.2)
    (hinside : ∀ e ∈ es, a ≤ e.1 ∧ e.stop ≤ b) (htotal : a + total es = b) :
    ∃ fs, es.Perm fs ∧ Tiles a fs b := by
  have hperm : es.Perm (es.mergeSort fun e f => e.1 ≤ f.1) := (List.mergeSort_perm _ _).symm
  have hsorted : (es.mergeSort fun e f => e.1 ≤ f.1).Pairwise fun e f => e.1 ≤ f.1 := by
    have hpairs := @List.pairwise_mergeSort Extent (fun e f => decide (e.1 ≤ f.1))
      (fun e f g => by simpa using Nat.le_trans) (fun e f => by simpa using Nat.le_total e.1 f.1) es
    simpa using hpairs
  refine ⟨_, hperm, ?_⟩
  generalize es.mergeSort (fun e f => e.1 ≤ f.1) = fs at hperm hsorted
  have hapart' : fs.Pairwise Apart := (hperm.pairwise_iff fun h => Apart.symm h).mp hapart
  have horder : fs.Pairwise fun e f => e.stop ≤ f.1 := by
    refine (hsorted.and hapart').imp_of_mem ?_
    intro e f _ hf h
    have hfpos := hpos f (hperm.mem_iff.mpr hf)
    obtain ⟨hle, hdisjoint⟩ := h
    simp only [Apart, stop] at *
    omega
  have htotal' : a + total fs = b := by rw [← htotal, total_perm hperm]
  exact (tiles_of_sorted horder (fun e he => hinside e (hperm.mem_iff.mpr he))
    (by omega)).2 (Nat.le_of_eq htotal'.symm)

end

end Extent

/-! ### Lists of lists -/

/-- One of the lists, and what the others hold. -/
theorem flatMap_update_perm {ι α : Type} [DecidableEq ι] {ids : List ι} (hnodup : ids.Nodup)
    {id : ι} (hid : id ∈ ids) (rep : ι → List α) :
    ∃ rest, (ids.flatMap rep).Perm (rep id ++ rest) ∧
      ∀ l, (ids.flatMap (Function.update rep id l)).Perm (l ++ rest) := by
  refine ⟨(ids.erase id).flatMap rep, ?_, ?_⟩
  · exact (List.perm_cons_erase hid).flatMap_right rep
  · intro l
    refine ((List.perm_cons_erase hid).flatMap_right _).trans ?_
    rw [List.flatMap_cons, Function.update_self]
    refine List.Perm.append_left _ (List.Perm.of_eq ?_)
    refine List.flatMap_congr fun i hi => ?_
    have hne : i ≠ id := fun heq => hnodup.not_mem_erase (heq ▸ hi)
    rw [Function.update_of_ne hne]

theorem flatten_perm_cons_eraseIdx {α : Type} {l : List (List α)} {i : Nat} {x : List α}
    (h : l[i]? = some x) : l.flatten.Perm (x ++ (l.eraseIdx i).flatten) := by
  obtain ⟨hlt, hx⟩ := List.getElem?_eq_some_iff.mp h
  have hperm := (List.getElem_cons_eraseIdx_perm hlt).symm.flatten
  rw [hx] at hperm
  exact hperm

/-- Replacing one of the lists changes the concatenation by what is replaced. -/
theorem flatten_set_perm {α : Type} {l : List (List α)} {i : Nat} {x : List α}
    (h : l[i]? = some x) (y : List α) : (l.set i y).flatten.Perm (y ++ (l.eraseIdx i).flatten) := by
  obtain ⟨hlt, _⟩ := List.getElem?_eq_some_iff.mp h
  have hget : (l.set i y)[i]? = some y := List.getElem?_set_self hlt
  have herase : (l.set i y).eraseIdx i = l.eraseIdx i := List.eraseIdx_set_eq
  have hperm := flatten_perm_cons_eraseIdx hget
  rwa [herase] at hperm

end IowarpCore
