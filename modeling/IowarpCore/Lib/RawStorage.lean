/-
Raw storage and the objects that live in it.

A storage is a list of cells; a cell is `none` where no object lives.  A read of such a cell
and any access outside the storage have no result.  Objects are moved one at a time, which
ends the life of the one that was there, or as raw memory, which leaves what was there.

The loops over cells are about a block of objects beside a gap.  Each lemma takes the storage
apart into what is before, the gap, the block and what is after, for any contents of the gap,
since that is what one round of the loop changes.
-/
import Mathlib.Algebra.Group.Nat.Defs
import Mathlib.Data.List.Basic
import Mathlib.Data.List.Induction

namespace IowarpCore

abbrev Storage (α : Type) := List (Option α)

namespace Storage

variable {α : Type}

/-! ### One cell -/

/-- The object in a cell. -/
def load (s : Storage α) (i : Nat) : Option α := s[i]?.join

/-- An object is made in a cell. -/
def construct (s : Storage α) (i : Nat) (x : α) : Option (Storage α) :=
  if i < s.length then some (s.set i (some x)) else none

/-- The life of an object ends. -/
def destroy (s : Storage α) (i : Nat) : Option (Storage α) :=
  (s.load i).map fun _ => s.set i none

/-- An object is made from another one, whose life then ends. -/
def move (s : Storage α) (dst src : Nat) : Option (Storage α) := do
  let x ← s.load src
  let s ← s.construct dst x
  s.destroy src

theorem load_at (pre tail : Storage α) (x : α) : load (pre ++ some x :: tail) pre.length = some x := by
  simp [load]

theorem set_at (pre tail : Storage α) (c c' : Option α) :
    (pre ++ c :: tail).set pre.length c' = pre ++ c' :: tail := by
  simp

theorem construct_at (pre tail : Storage α) (c : Option α) (x : α) :
    construct (pre ++ c :: tail) pre.length x = some (pre ++ some x :: tail) := by
  simp [construct]

theorem destroy_at (pre tail : Storage α) (x : α) :
    destroy (pre ++ some x :: tail) pre.length = some (pre ++ none :: tail) := by
  rw [destroy, load_at, Option.map_some, set_at]

theorem move_eq {s : Storage α} {dst src : Nat} {x : α} (hx : s.load src = some x)
    (hdst : dst < s.length) (hne : dst ≠ src) :
    s.move dst src = some ((s.set dst (some x)).set src none) := by
  have hkept : load (s.set dst (some x)) src = some x := by
    rw [load, List.getElem?_set_ne hne]
    exact hx
  simp only [move, hx, construct, if_pos hdst, destroy, hkept, Option.bind_eq_bind,
    Option.bind_some, Option.map_some]

/-- A move to a later cell. -/
theorem move_up (pre mid tail : Storage α) (x : α) (c : Option α) :
    move (pre ++ some x :: (mid ++ c :: tail)) (pre.length + (mid.length + 1)) pre.length =
      some (pre ++ none :: (mid ++ some x :: tail)) := by
  rw [move_eq (load_at pre _ x) (by simp) (by omega)]
  simp

/-- A move to an earlier cell. -/
theorem move_down (pre mid tail : Storage α) (x : α) (c : Option α) :
    move (pre ++ c :: (mid ++ some x :: tail)) pre.length (pre.length + (mid.length + 1)) =
      some (pre ++ some x :: (mid ++ none :: tail)) := by
  rw [move_eq (x := x) (by simp [load]) (by simp) (by omega)]
  simp

/-! ### Raw memory -/

/-- The cells from `pos` on, as memory. -/
def read (s : Storage α) (pos len : Nat) : Option (Storage α) :=
  if pos + len ≤ s.length then some ((s.drop pos).take len) else none

/-- `memcpy` to `pos`. -/
def write (s : Storage α) (pos : Nat) (cells : Storage α) : Option (Storage α) :=
  if pos + cells.length ≤ s.length then
    some (s.take pos ++ cells ++ s.drop (pos + cells.length))
  else none

def memmove (s : Storage α) (dst src len : Nat) : Option (Storage α) := do
  s.write dst (← s.read src len)

theorem read_at (pre cells tail : Storage α) :
    read (pre ++ (cells ++ tail)) pre.length cells.length = some cells := by
  rw [read, if_pos (by simp only [List.length_append]; omega), List.drop_left, List.take_left]

theorem write_at (pre old tail cells : Storage α) (h : cells.length = old.length) :
    write (pre ++ (old ++ tail)) pre.length cells = some (pre ++ (cells ++ tail)) := by
  rw [write, if_pos (by simp only [List.length_append]; omega), List.take_left, ← List.drop_drop,
    List.drop_left, h, List.drop_left, List.append_assoc]

/-! ### Loops -/

/-- `len` objects end, from `i` on. -/
def destroyRange : Storage α → Nat → Nat → Option (Storage α)
  | s, _, 0 => some s
  | s, i, len + 1 => do destroyRange (← s.destroy i) (i + 1) len

/-- `--i` on a `size_t`. -/
def decr (i : Nat) : Nat := if i = 0 then 2 ^ 64 - 1 else i - 1

/-- `for (; i >= lo; --i)`: the object `count` cells before `i` is moved to `i`.  A loop that
has not ended after `rounds` tests of its condition has no result. -/
def shiftUp (count lo : Nat) : Nat → Nat → Storage α → Option (Storage α)
  | 0, _, _ => none
  | rounds + 1, i, s =>
    if lo ≤ i then do shiftUp count lo rounds (decr i) (← s.move i (i - count)) else some s

/-- `len` objects, each `count` cells after its place from `i` on, are moved there. -/
def shiftDown : Storage α → Nat → Nat → Nat → Option (Storage α)
  | s, _, _, 0 => some s
  | s, count, i, len + 1 => do shiftDown (← s.move i (i + count)) count (i + 1) len

/-- `len` objects are made from `i` on; each comes from the storage as it is by then. -/
def fill : Storage α → Nat → Nat → (Storage α → Nat → Option α) → Option (Storage α)
  | s, _, 0, _ => some s
  | s, i, len + 1, source => do
      let s ← s.construct i (← source s 0)
      fill s (i + 1) len fun s k => source s (k + 1)

/-- `len` objects of one storage, from `i` on, are moved to another one. -/
def moveTo : Storage α → Storage α → Nat → Nat → Option (Storage α × Storage α)
  | old, new, _, 0 => some (old, new)
  | old, new, i, len + 1 => do
      let new ← new.construct i (← old.load i)
      moveTo (← old.destroy i) new (i + 1) len

/-- `len` objects, from `i` on. -/
def objects : Storage α → Nat → Nat → Option (List α)
  | _, _, 0 => some []
  | s, i, len + 1 => do
      let x ← s.load i
      return x :: (← objects s (i + 1) len)

/-! ### What the loops do -/

section Loops

variable {count : Nat}

theorem destroyRange_block (pre : Storage α) (mid : List α) (tail : Storage α) :
    destroyRange (pre ++ (mid.map some ++ tail)) pre.length mid.length =
      some (pre ++ (List.replicate mid.length none ++ tail)) := by
  induction mid generalizing pre with
  | nil => rfl
  | cons x mid ih =>
    have hnext := ih (pre ++ [none])
    rw [List.length_append, List.length_singleton, List.append_assoc, List.append_assoc] at hnext
    rw [List.length_cons, destroyRange, List.map_cons, List.cons_append, destroy_at,
      Option.bind_eq_bind, Option.bind_some]
    exact hnext

/-- The last object of the block goes to the last cell of the gap, which the gap then has at its
other end. -/
theorem shiftUp_block (pre : Storage α) (mid : List α) (gap tail : Storage α) {rounds : Nat}
    (hgap : gap.length = count) (hcount : 0 < count) (hrounds : mid.length < rounds) :
    ∃ gap' : Storage α, gap'.length = count ∧
      shiftUp count (pre.length + count) rounds (decr (pre.length + mid.length + count))
        (pre ++ (mid.map some ++ (gap ++ tail))) = some (pre ++ (gap' ++ (mid.map some ++ tail))) := by
  induction mid using List.reverseRecOn generalizing gap tail rounds with
  | nil =>
    obtain ⟨rounds, rfl⟩ := Nat.exists_eq_add_of_lt hrounds
    refine ⟨gap, hgap, ?_⟩
    have hend : ¬ pre.length + count ≤ decr (pre.length + 0 + count) := by
      rw [decr, if_neg (by omega)]
      omega
    simp only [List.length_nil, Nat.zero_add, shiftUp, hend, if_false, List.map_nil,
      List.nil_append]
  | append_singleton mid x ih =>
    rw [List.length_append, List.length_singleton] at hrounds
    obtain ⟨rounds, rfl⟩ : ∃ r, rounds = r + 1 := ⟨rounds - 1, by omega⟩
    obtain ⟨gap, c, rfl⟩ : ∃ gap₀ c, gap = gap₀ ++ [c] :=
      ⟨_, _, (List.dropLast_append_getLast (List.ne_nil_of_length_pos (hgap ▸ hcount))).symm⟩
    rw [List.length_append, List.length_singleton] at hgap
    obtain ⟨gap', hgap', hrest⟩ := ih (none :: gap) (some x :: tail)
      (by rw [List.length_cons, hgap]) (by omega : mid.length < rounds)
    refine ⟨gap', hgap', ?_⟩
    have hi : decr (pre.length + (mid ++ [x]).length + count) = pre.length + mid.length + count := by
      rw [decr, if_neg (by omega), List.length_append, List.length_singleton]
      omega
    have hmove := move_up (pre ++ mid.map some) gap tail x c
    have hbase : (pre ++ mid.map some).length = pre.length + mid.length := by
      rw [List.length_append, List.length_map]
    rw [hbase, hgap] at hmove
    simp only [List.append_assoc, List.cons_append, List.nil_append] at hmove hrest ⊢
    rw [hi, shiftUp, if_pos (by omega), Nat.add_sub_cancel]
    simp only [List.map_append, List.map_cons, List.map_nil, List.append_assoc, List.cons_append,
      List.nil_append, hmove, Option.bind_eq_bind, Option.bind_some]
    exact hrest

/-- The first object of the block goes to the first cell of the gap. -/
theorem shiftDown_block (pre : Storage α) (mid : List α) (gap tail : Storage α)
    (hgap : gap.length = count) (hcount : 0 < count) :
    ∃ gap' : Storage α, gap'.length = count ∧
      shiftDown (pre ++ (gap ++ (mid.map some ++ tail))) count pre.length mid.length =
        some (pre ++ (mid.map some ++ (gap' ++ tail))) := by
  induction mid generalizing pre gap with
  | nil => exact ⟨gap, hgap, rfl⟩
  | cons x mid ih =>
    obtain ⟨c, gap, rfl⟩ := List.exists_cons_of_length_pos (hgap ▸ hcount)
    rw [List.length_cons] at hgap
    obtain ⟨gap', hgap', hrest⟩ := ih (pre ++ [some x]) (gap ++ [none])
      (by rw [List.length_append, List.length_singleton, hgap])
    refine ⟨gap', hgap', ?_⟩
    have hmove := move_down pre gap (mid.map some ++ tail) x c
    rw [hgap] at hmove
    simp only [List.length_append, List.length_singleton, List.append_assoc, List.cons_append,
      List.nil_append] at hrest
    simp only [List.length_cons, shiftDown, List.map_cons, List.cons_append, hmove,
      Option.bind_eq_bind, Option.bind_some]
    exact hrest

/-- Objects fill a gap.  They may come from the storage before it. -/
theorem fill_block (pre : Storage α) (xs : List α) (gap tail : Storage α)
    (source : Storage α → Nat → Option α) (hgap : gap.length = xs.length)
    (hsource : ∀ k x, xs[k]? = some x → ∀ cells, source (pre ++ cells) k = some x) :
    fill (pre ++ (gap ++ tail)) pre.length xs.length source =
      some (pre ++ (xs.map some ++ tail)) := by
  induction xs generalizing pre gap source with
  | nil =>
    rw [List.length_eq_zero_iff.mp hgap]
    rfl
  | cons x xs ih =>
    obtain ⟨c, gap, rfl⟩ := List.exists_cons_of_length_eq_add_one hgap
    have hread := hsource 0 x rfl (c :: gap ++ tail)
    have hrest := ih (pre ++ [some x]) gap (fun s k => source s (k + 1)) (Nat.succ.inj hgap)
      fun k y hy cells => by
        rw [List.append_assoc]
        exact hsource (k + 1) y hy _
    simp only [List.length_append, List.length_singleton, List.append_assoc, List.cons_append,
      List.nil_append] at hrest hread
    simp only [List.length_cons, fill, List.map_cons, List.cons_append, hread, construct_at,
      Option.bind_eq_bind, Option.bind_some]
    exact hrest

/-- A block is moved to the same place in another storage. -/
theorem moveTo_block (preO preN : Storage α) (xs : List α) (tail gap after : Storage α)
    (hpre : preO.length = preN.length) (hgap : gap.length = xs.length) :
    ∃ old', moveTo (preO ++ (xs.map some ++ tail)) (preN ++ (gap ++ after)) preN.length xs.length =
      some (old', preN ++ (xs.map some ++ after)) := by
  induction xs generalizing preO preN gap with
  | nil =>
    rw [List.length_eq_zero_iff.mp hgap]
    exact ⟨_, rfl⟩
  | cons x xs ih =>
    obtain ⟨c, gap, rfl⟩ := List.exists_cons_of_length_eq_add_one hgap
    obtain ⟨old', hrest⟩ := ih (preO ++ [none]) (preN ++ [some x]) gap (by simp [hpre])
      (Nat.succ.inj hgap)
    have hread := load_at preO (xs.map some ++ tail) x
    have hend := destroy_at preO (xs.map some ++ tail) x
    rw [hpre] at hread hend
    simp only [List.length_append, List.length_singleton, List.append_assoc, List.cons_append,
      List.nil_append] at hrest
    refine ⟨old', ?_⟩
    simp only [List.length_cons, moveTo, List.map_cons, List.cons_append, hread, construct_at,
      hend, Option.bind_eq_bind, Option.bind_some]
    exact hrest

theorem objects_block (pre : Storage α) (xs : List α) (tail : Storage α) :
    objects (pre ++ (xs.map some ++ tail)) pre.length xs.length = some xs := by
  induction xs generalizing pre with
  | nil => rfl
  | cons x xs ih =>
    have hrest := ih (pre ++ [some x])
    simp only [List.length_append, List.length_singleton, List.append_assoc, List.cons_append,
      List.nil_append] at hrest
    simp only [List.length_cons, objects, List.map_cons, List.cons_append, load_at, hrest,
      Option.bind_eq_bind, Option.bind_some]
    rfl

/-! ### What raw moves do -/

/-- A block is moved over the gap behind it. -/
theorem memmove_up_block (pre mid gap tail : Storage α) :
    memmove (pre ++ (mid ++ (gap ++ tail))) (pre.length + gap.length) pre.length mid.length =
      some (pre ++ ((mid ++ gap).take gap.length ++ (mid ++ tail))) := by
  have hlen : ((mid ++ gap).take gap.length).length = gap.length := by
    rw [List.length_take, List.length_append]
    omega
  have hwrite := write_at (pre ++ (mid ++ gap).take gap.length) ((mid ++ gap).drop gap.length) tail
    mid (by rw [List.length_drop, List.length_append]; omega)
  rw [List.length_append, hlen, List.append_assoc, ← List.append_assoc (List.take _ _),
    List.take_append_drop, List.append_assoc, List.append_assoc] at hwrite
  rw [memmove, read_at, Option.bind_eq_bind, Option.bind_some]
  exact hwrite

/-- A block is moved over the gap before it. -/
theorem memmove_down_block (pre gap mid tail : Storage α) :
    ∃ gap' : Storage α, gap'.length = gap.length ∧
      memmove (pre ++ (gap ++ (mid ++ tail))) pre.length (pre.length + gap.length) mid.length =
        some (pre ++ (mid ++ (gap' ++ tail))) := by
  refine ⟨(gap ++ mid).drop mid.length, by rw [List.length_drop, List.length_append]; omega, ?_⟩
  have hread := read_at (pre ++ gap) mid tail
  have hwrite := write_at pre ((gap ++ mid).take mid.length) ((gap ++ mid).drop mid.length ++ tail)
    mid (by rw [List.length_take, List.length_append]; omega)
  rw [List.length_append, List.append_assoc] at hread
  rw [← List.append_assoc (List.take _ _), List.take_append_drop, List.append_assoc] at hwrite
  rw [memmove, hread, Option.bind_eq_bind, Option.bind_some]
  exact hwrite

end Loops

end Storage

end IowarpCore
