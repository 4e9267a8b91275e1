/-
What a string shows: its comparisons and searches are those of the list it stands for.

The loops of the source compare memory; a string that stands for a list has the list in
front of its memory, so a comparison of memory is one of lists.  A search stops at the
last position where the text still fits, and past it the list has no hit either.
-/
import IowarpCore.Proofs.BasicString
import Mathlib.Data.List.Range

namespace IowarpCore

namespace Priv

/-! ### Lists -/

/-- The order of character lists: the first difference decides, then the length. -/
abbrev lexCompare (a b : Bytes) : Ordering := List.compareLex compare a b

/-- The first position from `pos` on at which `needle` stands. -/
def firstAt (needle l : Bytes) (pos : Nat) : Option Nat :=
  (List.range' pos (l.length + 1 - pos)).find? fun i => needle.isPrefixOf (l.drop i)

theorem lexCompare_eq_iff {a b : Bytes} : lexCompare a b = .eq ↔ a = b := by
  constructor
  · exact Std.LawfulEqCmp.eq_of_compare
  · rintro rfl
    exact Std.ReflCmp.compare_self

/-- Lists compared as the source does: up to the shorter length, then by length. -/
theorem lexCompare_min (a b : Bytes) :
    lexCompare a b =
      if lexCompare (a.take (min a.length b.length)) (b.take (min a.length b.length)) ≠ .eq then
        lexCompare (a.take (min a.length b.length)) (b.take (min a.length b.length))
      else if a.length < b.length then .lt
      else if b.length < a.length then .gt
      else .eq := by
  induction a generalizing b with
  | nil =>
    cases b with
    | nil => rfl
    | cons y b => simp [lexCompare, List.compareLex]
  | cons x a ih =>
    cases b with
    | nil => simp [lexCompare, List.compareLex]
    | cons y b =>
      have hmin : min (x :: a).length (y :: b).length = min a.length b.length + 1 := by
        simp only [List.length_cons]
        omega
      rw [hmin, List.take_succ_cons, List.take_succ_cons]
      simp only [lexCompare, List.compareLex_cons_cons, List.length_cons, Nat.add_lt_add_iff_right]
      cases hxy : compare x y with
      | lt => rfl
      | gt => rfl
      | eq =>
        simp only [Ordering.eq_then]
        exact ih b

/-- A text longer than what is left is not there. -/
theorem not_isPrefixOf_drop {needle l : Bytes} {i : Nat} (h : l.length < i + needle.length)
    (hneedle : 0 < needle.length) : needle.isPrefixOf (l.drop i) = false := by
  rw [Bool.eq_false_iff]
  intro hpre
  have hle := (List.isPrefixOf_iff_prefix.mp hpre).length_le
  rw [List.length_drop] at hle
  omega

/-- The search may stop at the last position where the text fits. -/
theorem firstAt_eq {needle l : Bytes} (hneedle : 0 < needle.length) (pos : Nat) :
    firstAt needle l pos =
      (List.range' pos (l.length + 1 - needle.length - pos)).find? fun i =>
        needle.isPrefixOf (l.drop i) := by
  obtain ⟨k, hk⟩ : ∃ k, l.length + 1 - pos = l.length + 1 - needle.length - pos + k :=
    ⟨_, (Nat.add_sub_of_le (by omega)).symm⟩
  have hrest : ((List.range' (pos + (l.length + 1 - needle.length - pos)) k).find? fun i =>
      needle.isPrefixOf (l.drop i)) = none := by
    rw [List.find?_eq_none]
    intro i hi
    rw [List.mem_range'_1] at hi
    rw [not_isPrefixOf_drop (by omega) hneedle]
    decide
  have hsplit := List.range'_append_1 (s := pos) (m := l.length + 1 - needle.length - pos) (n := k)
  rw [firstAt, hk, ← hsplit, List.find?_append, hrest, Option.or_none]

theorem firstAt_nil (l : Bytes) (pos : Nat) :
    firstAt [] l pos = if pos ≤ l.length then some pos else none := by
  unfold firstAt
  split
  · rename_i hle
    obtain ⟨k, hk⟩ : ∃ k, l.length + 1 - pos = k + 1 := ⟨l.length - pos, by omega⟩
    rw [hk, List.range'_succ, List.find?_cons_of_pos rfl]
  · rename_i hlt
    rw [show l.length + 1 - pos = 0 by omega]
    rfl

namespace BasicString

variable {n : Nat} {h : VecHeap} {s t : BasicString} {l text : Bytes} {other : Bytes}

/-! ### Comparison -/

theorem compareTo_eq (hrepr : Repr n h s l) (hother : text <+: other) :
    s.compareTo n h text.length (some other) = some (lexCompare l text) := by
  obtain ⟨mem, hmem, hfront⟩ := getData_eq hrepr
  rw [lexCompare_min]
  simp only [compareTo, hmem, hrepr.size, Option.bind_eq_bind, Option.bind_some,
    memcmp_eq hfront hother (Nat.min_le_left _ _) (Nat.min_le_right _ _)]
  split
  · rfl
  · split
    · rfl
    · split <;> rfl

theorem equalsTo_eq (hrepr : Repr n h s l) (hother : text <+: other) :
    s.equalsTo n h text.length (some other) = some (decide (l = text)) := by
  obtain ⟨mem, hmem, hfront⟩ := getData_eq hrepr
  unfold equalsTo
  by_cases hlen : l.length = text.length
  · rw [if_neg (by rw [hrepr.size]; exact not_not_intro hlen)]
    simp only [hmem, hrepr.size, Option.bind_eq_bind, Option.bind_some,
      memcmp_eq hfront hother (Nat.le_refl _) (Nat.le_of_eq hlen)]
    rw [List.take_length, hlen, List.take_length]
    congr 1
    rw [Bool.eq_iff_iff, beq_iff_eq, decide_eq_true_iff]
    exact lexCompare_eq_iff
  · rw [if_pos (by rw [hrepr.size]; exact hlen)]
    have hne : l ≠ text := fun heq => hlen (congrArg List.length heq)
    rw [decide_eq_false hne]

/-! ### Search -/

/-- A search loop over positions that can be read. -/
theorem search_eq {hit : Nat → Option Bool} {f : Nat → Bool} {count i : Nat}
    (hhit : ∀ k, i ≤ k → k < i + count → hit k = some (f k)) :
    search hit count i = some ((List.range' i count).find? f) := by
  induction count generalizing i with
  | zero => rfl
  | succ count ih =>
    rw [search, hhit i (Nat.le_refl _) (by omega), List.range'_succ]
    simp only [Option.bind_eq_bind, Option.bind_some]
    cases hf : f i with
    | true => rw [if_pos rfl, List.find?_cons_of_pos hf]
    | false =>
      rw [if_neg (by decide), List.find?_cons_of_neg (by rw [hf]; decide)]
      exact ih fun k hk hlt => hhit k (by omega) (by omega)

theorem hit_eq {mem : Bytes} (hl : l <+: mem) (hother : text <+: other) {i : Nat}
    (hi : i + text.length ≤ l.length) :
    ((memcmp (mem.drop i) other text.length).bind fun r => some (r == .eq)) =
      some (text.isPrefixOf (l.drop i)) := by
  have hdrop : l.drop i <+: mem.drop i := by
    obtain ⟨rest, rfl⟩ := hl
    rw [List.drop_append_of_le_length (by omega)]
    exact List.prefix_append _ _
  rw [memcmp_eq hdrop hother (by rw [List.length_drop]; omega) (Nat.le_refl _), List.take_length,
    Option.bind_some]
  congr 1
  rw [Bool.eq_iff_iff, beq_iff_eq, List.isPrefixOf_iff_prefix]
  refine lexCompare_eq_iff.trans ?_
  rw [List.prefix_iff_eq_take]
  exact eq_comm

/-- A position and a length whose sum `find` computes without a wrap, or a text no longer
than the string; and a string of a length `size_t` can hold. -/
def FindSafe (size len pos : Nat) : Prop :=
  size < 2 ^ 64 ∧ (pos + len < 2 ^ 64 ∨ len ≤ size)

theorem findText_eq (hrepr : Repr n h s l) (hother : text <+: other) {pos : Nat}
    (hsafe : FindSafe l.length text.length pos) :
    s.findText n h text.length (some other) pos = some (firstAt text l pos) := by
  obtain ⟨mem, hmem, hfront⟩ := getData_eq hrepr
  obtain ⟨hsize, hsum⟩ := hsafe
  unfold findText
  rw [hrepr.size]
  by_cases hzero : text.length = 0
  · rw [if_pos hzero, List.eq_nil_of_length_eq_zero hzero, firstAt_nil]
  rw [if_neg hzero, firstAt_eq (by omega)]
  by_cases hfar : l.length < (pos + text.length) % 2 ^ 64
  · -- the text does not fit behind `pos`
    have hmod := Nat.mod_le (pos + text.length) (2 ^ 64)
    rw [if_pos hfar, show l.length + 1 - text.length - pos = 0 by omega]
    rfl
  · rw [if_neg hfar]
    have hfits : text.length ≤ l.length := by
      cases hsum with
      | inl hlt =>
        rw [Nat.mod_eq_of_lt hlt] at hfar
        omega
      | inr hle => exact hle
    have hlast : sub64 l.length text.length = l.length - text.length := by
      rw [sub64, Nat.add_sub_assoc hfits, Nat.add_mod_left, Nat.mod_eq_of_lt (by omega)]
    simp only [hmem, Option.bind_eq_bind, Option.bind_some, hlast]
    rw [show l.length - text.length + 1 - pos = l.length + 1 - text.length - pos by omega]
    exact search_eq fun k _ hk => hit_eq hfront hother (by omega)

theorem findChar_eq (hrepr : Repr n h s l) (c : UInt8) (pos : Nat) :
    s.findChar n h c pos = some (firstAt [c] l pos) := by
  obtain ⟨mem, hmem, hfront⟩ := getData_eq hrepr
  have hone : 0 < [c].length := Nat.one_pos
  unfold findChar
  rw [hrepr.size, firstAt_eq hone]
  by_cases hle : l.length ≤ pos
  · rw [if_pos hle, List.length_singleton, Nat.add_sub_cancel, Nat.sub_eq_zero_of_le hle]
    rfl
  · rw [if_neg hle, List.length_singleton, Nat.add_sub_cancel]
    simp only [hmem, Option.bind_eq_bind, Option.bind_some]
    refine search_eq fun k _ hk => ?_
    have hlt : k < l.length := by omega
    have hread : mem[k]? = some l[k] := by
      obtain ⟨rest, rfl⟩ := hfront
      rw [List.getElem?_append_left hlt, List.getElem?_eq_getElem hlt]
    rw [hread, Option.bind_some, List.drop_eq_getElem_cons hlt]
    congr 1
    rw [Bool.eq_iff_iff, beq_iff_eq, List.isPrefixOf_iff_prefix, List.cons_prefix_cons, eq_comm]
    exact (and_iff_left List.nil_prefix).symm

end BasicString

end Priv

end IowarpCore
