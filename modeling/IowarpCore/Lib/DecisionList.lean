/-
Decision lists sorted by rank.

The first element of a list that a test accepts decides.  In a list sorted by descending rank
that is an element of the greatest rank among the accepted ones, and as a sort may leave
equals in any order, it can be any of these.
-/
import Mathlib.Data.List.Sort

namespace IowarpCore

/-- A sort by descending rank, with the order of equals left open. -/
structure SortDesc {α : Type} (rank : α → Nat) where
  sort : List α → List α
  perm : ∀ l, (sort l).Perm l
  sorted : ∀ l, (sort l).Pairwise fun a b => rank b ≤ rank a

/-- One that leaves equals as they are. -/
def sortDesc {α : Type} (rank : α → Nat) : SortDesc rank where
  sort l := l.insertionSort fun a b => rank b ≤ rank a
  perm l := List.perm_insertionSort _ l
  sorted l := by
    have htotal : Std.Total fun a b : α => rank b ≤ rank a := ⟨fun a b => Nat.le_total _ _⟩
    have htrans : IsTrans α fun a b => rank b ≤ rank a :=
      ⟨fun _ _ _ hab hbc => Nat.le_trans hbc hab⟩
    exact List.pairwise_insertionSort _ l

section

variable {α β : Type} {rank : α → Nat} {accepts : α → Bool} {l : List α} {a : α}

theorem SortDesc.mem (s : SortDesc rank) : a ∈ s.sort l ↔ a ∈ l := (s.perm l).mem_iff

/-- An accepted element of the greatest rank. -/
structure Top (rank : α → Nat) (accepts : α → Bool) (l : List α) (a : α) : Prop where
  mem : a ∈ l
  accepted : accepts a = true
  greatest : ∀ b ∈ l, accepts b = true → rank b ≤ rank a

theorem Top.congr {l' : List α} (hmem : ∀ b, b ∈ l ↔ b ∈ l') :
    Top rank accepts l a ↔ Top rank accepts l' a :=
  ⟨fun h => ⟨(hmem a).mp h.mem, h.accepted, fun b hb => h.greatest b ((hmem b).mpr hb)⟩,
    fun h => ⟨(hmem a).mpr h.mem, h.accepted, fun b hb => h.greatest b ((hmem b).mp hb)⟩⟩

/-- The first accepted element comes before the others. -/
theorem find_of_pairwise {R : α → α → Prop} (hl : l.Pairwise R) (ha : l.find? accepts = some a)
    {b : α} (hb : b ∈ l) (haccept : accepts b = true) : b = a ∨ R a b := by
  induction l with
  | nil => cases hb
  | cons c l ih =>
    obtain ⟨hc, hrest⟩ := List.pairwise_cons.mp hl
    by_cases hac : accepts c = true
    · rw [List.find?_cons_of_pos hac, Option.some.injEq] at ha
      subst ha
      obtain rfl | hbl := List.mem_cons.mp hb
      · exact .inl rfl
      · exact .inr (hc b hbl)
    · rw [List.find?_cons_of_neg hac] at ha
      obtain rfl | hbl := List.mem_cons.mp hb
      · exact absurd haccept hac
      · exact ih hrest ha hbl

/-- A sorted list is decided by an element of the greatest rank. -/
theorem top_of_find (hl : l.Pairwise fun a b => rank b ≤ rank a) (ha : l.find? accepts = some a) :
    Top rank accepts l a where
  mem := List.mem_of_find?_eq_some ha
  accepted := List.find?_some ha
  greatest b hb haccept := by
    obtain rfl | hle := find_of_pairwise hl ha hb haccept
    · exact Nat.le_refl _
    · exact hle

/-- Descending rank, and `first` before its equals. -/
def ranksBefore [DecidableEq α] (rank : α → Nat) (first a b : α) : Bool :=
  decide (rank b < rank a) || decide (rank a = rank b) && (decide (b ≠ first) || decide (a = first))

theorem ranksBefore_iff [DecidableEq α] {first a b : α} :
    ranksBefore rank first a b = true ↔ rank b < rank a ∨ rank a = rank b ∧ (b = first → a = first) := by
  simp only [ranksBefore, Bool.or_eq_true, Bool.and_eq_true, decide_eq_true_eq, ne_eq]
  tauto

theorem ranksBefore_trans [DecidableEq α] {first a b c : α} (hab : ranksBefore rank first a b = true)
    (hbc : ranksBefore rank first b c = true) : ranksBefore rank first a c = true := by
  rw [ranksBefore_iff] at hab hbc ⊢
  obtain hlt | ⟨heq, hfirst⟩ := hab
  · left
    omega
  · obtain hlt | ⟨heq', hfirst'⟩ := hbc
    · left
      omega
    · exact .inr ⟨heq.trans heq', fun h => hfirst (hfirst' h)⟩

theorem ranksBefore_total [DecidableEq α] (first a b : α) :
    (ranksBefore rank first a b || ranksBefore rank first b a) = true := by
  rw [Bool.or_eq_true, ranksBefore_iff, ranksBefore_iff]
  obtain hlt | heq | hlt := Nat.lt_trichotomy (rank b) (rank a)
  · exact .inl (.inl hlt)
  · by_cases ha : a = first
    · exact .inl (.inr ⟨heq.symm, fun _ => ha⟩)
    · exact .inr (.inr ⟨heq, fun h => absurd h ha⟩)
  · exact .inr (.inl hlt)

/-- The sort that puts an element before its equals. -/
def sortFirst [DecidableEq α] (rank : α → Nat) (first : α) : SortDesc rank where
  sort l := l.mergeSort (ranksBefore rank first)
  perm l := List.mergeSort_perm l _
  sorted l := by
    refine (List.pairwise_mergeSort (fun _ _ _ => ranksBefore_trans) (ranksBefore_total first) l).imp ?_
    intro a b h
    have := ranksBefore_iff.mp h
    omega

/-- An accepted element of the greatest rank decides, when it comes before its equals. -/
theorem find_sortFirst [DecidableEq α] (ha : Top rank accepts l a) :
    ((sortFirst rank a).sort l).find? accepts = some a := by
  have hmem : a ∈ (sortFirst rank a).sort l := (sortFirst rank a).mem.mpr ha.mem
  cases hfind : ((sortFirst rank a).sort l).find? accepts with
  | none => exact absurd ha.accepted (List.find?_eq_none.mp hfind a hmem)
  | some b =>
    have hb : b ∈ l := (sortFirst rank a).mem.mp (List.mem_of_find?_eq_some hfind)
    have hle := ha.greatest b hb (List.find?_some hfind)
    have hsorted : ((sortFirst rank a).sort l).Pairwise fun x y => ranksBefore rank a x y = true :=
      List.pairwise_mergeSort (fun _ _ _ => ranksBefore_trans) (ranksBefore_total a) l
    obtain rfl | hbefore := find_of_pairwise hsorted hfind hmem ha.accepted
    · rfl
    · obtain hlt | ⟨-, hfirst⟩ := ranksBefore_iff.mp hbefore
      · omega
      · rw [hfirst rfl]

/-- **What a sorted list decides**: one value whatever the order of equals, if all accepted
elements of the greatest rank have it, and it is the default if none is accepted. -/
theorem decides_iff [DecidableEq α] (rank : α → Nat) (accepts : α → Bool) (l : List α)
    (value : α → β) (default b : β) :
    (∀ s : SortDesc rank, (((s.sort l).find? accepts).map value).getD default = b) ↔
      (∀ a, Top rank accepts l a → value a = b) ∧
        ((∀ a ∈ l, ¬ accepts a = true) → default = b) := by
  constructor
  · intro h
    refine ⟨fun a ha => ?_, fun hnone => ?_⟩
    · have hthis := h (sortFirst rank a)
      rwa [find_sortFirst ha] at hthis
    · have hthis := h (sortDesc rank)
      rwa [List.find?_eq_none.mpr fun a ha => hnone a ((sortDesc rank).mem.mp ha)] at hthis
  · rintro ⟨htop, hnone⟩ s
    cases hfind : (s.sort l).find? accepts with
    | none => exact hnone fun a ha => List.find?_eq_none.mp hfind a (s.mem.mpr ha)
    | some a =>
      have ha := top_of_find (s.sorted l) hfind
      exact htop a ⟨s.mem.mp ha.mem, ha.accepted, fun c hc => ha.greatest c (s.mem.mpr hc)⟩

end

end IowarpCore
