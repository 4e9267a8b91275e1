/-
What one operation of a string does to the list of its characters.

`Repr` says which list an object stands for: the characters in front of the buffer while
the string is inline, those in front of the vector's memory otherwise.  The vector may
hold more characters than the string has.  Each operation has one lemma: under its
condition it succeeds, the object stands for the list the plain operation gives, and the
heap changes only in cells of the string.  The conditions are where the code goes wrong
without them, and each names one defect.
-/
import IowarpCore.Lib.OwnedCells
import IowarpCore.Shm.BasicString
import Mathlib.Data.List.Infix

namespace IowarpCore

namespace Priv

/-! ### Memory -/

section Memory

variable {mem l bytes : Bytes} {pos len : Nat}

/-- Memory after a write. -/
def splice (mem : Bytes) (pos : Nat) (bytes : Bytes) : Bytes :=
  mem.take pos ++ bytes ++ mem.drop (pos + bytes.length)

theorem writeMem_eq (h : pos + bytes.length ≤ mem.length) :
    writeMem mem pos bytes = some (splice mem pos bytes) := if_pos h

@[simp] theorem length_splice (h : pos + bytes.length ≤ mem.length) :
    (splice mem pos bytes).length = mem.length := by
  simp only [splice, List.length_append, List.length_take, List.length_drop]
  omega

theorem readMem_eq (hl : l <+: mem) (h : pos + len ≤ l.length) :
    readMem mem pos len = some ((l.drop pos).take len) := by
  obtain ⟨rest, rfl⟩ := hl
  have hbound : pos + len ≤ (l ++ rest).length := by
    rw [List.length_append]
    omega
  rw [readMem, if_pos hbound, List.drop_append_of_le_length (by omega),
    List.take_append_of_le_length (by rw [List.length_drop]; omega)]

/-- All the characters. -/
theorem readMem_all (hl : l <+: mem) : readMem mem 0 l.length = some l := by
  rw [readMem_eq hl (by omega), List.drop_zero, List.take_length]

/-- A write keeps the characters in front of it. -/
theorem holds_splice (hl : l <+: mem) (h : pos ≤ l.length) :
    l.take pos ++ bytes <+: splice mem pos bytes := by
  obtain ⟨rest, rfl⟩ := hl
  rw [splice, List.take_append_of_le_length h]
  exact List.prefix_append _ _

/-- A piece and then the piece in front of it. -/
theorem splice_splice {tail : Bytes} (h : pos + bytes.length ≤ mem.length) :
    splice (splice mem (pos + bytes.length) tail) pos bytes =
      mem.take pos ++ bytes ++ (tail ++ mem.drop (pos + bytes.length + tail.length)) := by
  have hcut : (mem.take (pos + bytes.length)).length = pos + bytes.length := by
    rw [List.length_take]
    omega
  have hfront : (splice mem (pos + bytes.length) tail).take pos = mem.take pos := by
    rw [splice, List.append_assoc, List.take_append_of_le_length (by omega), List.take_take]
    congr 1
    omega
  have hback : (splice mem (pos + bytes.length) tail).drop (pos + bytes.length) =
      tail ++ mem.drop (pos + bytes.length + tail.length) := by
    rw [splice, List.append_assoc]
    exact List.drop_left' hcut
  rw [splice, hfront, hback]

theorem memcmp_eq {a b : Bytes} (ha : l <+: a) (hb : bytes <+: b) (hlen : len ≤ l.length)
    (hlen' : len ≤ bytes.length) :
    memcmp a b len = some (List.compareLex compare (l.take len) (bytes.take len)) := by
  induction len generalizing l bytes a b with
  | zero => simp [memcmp, List.compareLex]
  | succ len ih =>
    obtain ⟨x, l, rfl⟩ := List.exists_cons_of_length_pos (l := l) (by omega)
    obtain ⟨y, bytes, rfl⟩ := List.exists_cons_of_length_pos (l := bytes) (by omega)
    obtain ⟨ra, rfl⟩ := ha
    obtain ⟨rb, rfl⟩ := hb
    rw [List.length_cons] at hlen hlen'
    have hrec := ih (List.prefix_append l ra) (List.prefix_append bytes rb) (by omega) (by omega)
    simp only [List.cons_append, memcmp, List.take_succ_cons, List.compareLex_cons_cons]
    by_cases hxy : x = y
    · subst hxy
      have hself : compare x x = .eq := Std.ReflCmp.compare_self
      rw [if_pos rfl, hrec, hself, Ordering.eq_then]
    · rw [if_neg hxy]
      have hne : compare x y ≠ .eq := fun heq => hxy (Std.LawfulEqCmp.eq_of_compare heq)
      cases hcmp : compare x y with
      | eq => exact absurd hcmp hne
      | lt => rfl
      | gt => rfl

end Memory

/-! ### The vector -/

namespace Vec

variable {v : Vec} {l : Bytes}

/-- The vector holds these characters and no others. -/
structure Holds (v : Vec) (l : Bytes) : Prop where
  size : v.size = l.length
  front : l <+: v.data

theorem Holds.room (hv : v.Holds l) : v.size ≤ v.data.length := by
  rw [hv.size]
  exact hv.front.length_le

theorem holds_new (alloc : Option Nat) : (new alloc).Holds [] := ⟨rfl, List.prefix_rfl⟩

@[simp] theorem alloc_reserve (v : Vec) (cap : Nat) : (v.reserve cap).alloc = v.alloc := by
  unfold reserve
  split <;> rfl

@[simp] theorem size_reserve (v : Vec) (cap : Nat) : (v.reserve cap).size = v.size := by
  unfold reserve
  split <;> rfl

/-- A reallocation copies `size_` characters. -/
theorem front_reserve (hl : l <+: v.data) (hsize : l.length ≤ v.size) (cap : Nat) :
    l <+: (v.reserve cap).data := by
  unfold reserve
  split
  · exact hl
  · exact (List.prefix_take_iff.mpr ⟨hl, hsize⟩).trans (List.prefix_append _ _)

theorem Holds.reserve (hv : v.Holds l) (cap : Nat) : (v.reserve cap).Holds l :=
  ⟨(size_reserve v cap).trans hv.size, front_reserve hv.front (by rw [hv.size]) cap⟩

theorem room_reserve (hroom : v.size ≤ v.data.length) (cap : Nat) :
    (v.reserve cap).size ≤ (v.reserve cap).data.length := by
  unfold Vec.reserve
  split
  · exact hroom
  · simp only [List.length_append, List.length_take, List.length_replicate]
    omega

theorem le_capacity_reserve (hroom : v.size ≤ v.data.length) (halloc : v.alloc ≠ none)
    (cap : Nat) : cap ≤ (v.reserve cap).capacity := by
  unfold Vec.reserve
  split
  · rename_i h
    cases h with
    | inl h => exact h
    | inr h => exact absurd h halloc
  · rename_i h
    rw [not_or, Nat.not_le] at h
    have hlt : v.data.length < cap := h.1
    simp only [capacity, List.length_append, List.length_take, List.length_replicate]
    omega

/-- `minCapacity` rounds of doubling are enough. -/
theorem le_doubled (rounds : Nat) {newCapacity minCapacity : Nat} (hpos : 0 < newCapacity)
    (h : minCapacity ≤ newCapacity + rounds) :
    minCapacity ≤ doubled rounds newCapacity minCapacity := by
  induction rounds generalizing newCapacity with
  | zero => exact h
  | succ rounds ih =>
    rw [doubled]
    split
    · exact ih (by omega) (by omega)
    · omega

theorem le_capacity_grow (hroom : v.size ≤ v.data.length) (halloc : v.alloc ≠ none)
    (minCapacity : Nat) : minCapacity ≤ (v.grow minCapacity).capacity := by
  have hdoubled : minCapacity ≤
      doubled minCapacity (if v.capacity = 0 then 1 else v.capacity * 2) minCapacity :=
    le_doubled minCapacity (by split <;> omega) (by omega)
  exact hdoubled.trans (le_capacity_reserve hroom halloc _)

/-- One character behind the others. -/
theorem Holds.pushBack (hv : v.Holds l) (halloc : v.alloc ≠ none) (c : UInt8) :
    ∃ v', v.pushBack c = some v' ∧ v'.Holds (l ++ [c]) ∧ v'.alloc = v.alloc ∧
      (v.size < v.capacity → v'.capacity = v.capacity) := by
  -- the vector as it is written to, with room for one more
  obtain ⟨w, hw, hholds, hsame, hroom, hcap⟩ : ∃ w,
      (if v.capacity ≤ v.size then v.grow (v.size + 1) else v) = w ∧ w.Holds l ∧
        w.alloc = v.alloc ∧ w.size < w.capacity ∧
        (v.size < v.capacity → w.capacity = v.capacity) := by
    by_cases hfull : v.capacity ≤ v.size
    · refine ⟨_, if_pos hfull, hv.reserve _, alloc_reserve v _, ?_, fun h => absurd h (by omega)⟩
      have hgrow := le_capacity_grow hv.room halloc (v.size + 1)
      rw [grow, size_reserve] at *
      omega
    · exact ⟨v, if_neg hfull, hv, rfl, by omega, fun _ => rfl⟩
  refine ⟨{ w with data := w.data.set w.size c, size := w.size + 1 }, ?_, ⟨?_, ?_⟩, hsame, ?_⟩
  · simp only [Vec.pushBack, hw, if_pos hroom]
  · simp [hholds.size]
  · obtain ⟨rest, hrest⟩ := hholds.front
    have hlen : l.length < (l ++ rest).length := by
      rw [hrest, ← hholds.size]
      exact hroom
    obtain ⟨x, rest, rfl⟩ := List.exists_cons_of_length_pos (l := rest)
      (by rw [List.length_append] at hlen; omega)
    refine ⟨rest, ?_⟩
    simp only [← hrest, hholds.size, List.set_append_right _ _ (Nat.le_refl _), Nat.sub_self,
      List.set_cons_zero, List.append_assoc, List.singleton_append]
  · intro h
    have := hcap h
    simpa only [capacity, List.length_set] using this

theorem Holds.pushAll (hv : v.Holds l) {chars : Bytes} (halloc : chars = [] ∨ v.alloc ≠ none) :
    ∃ v', v.pushAll chars = some v' ∧ v'.Holds (l ++ chars) ∧ v'.alloc = v.alloc := by
  induction chars generalizing v l with
  | nil => exact ⟨v, rfl, by rwa [List.append_nil], rfl⟩
  | cons c chars ih =>
    have hsome : v.alloc ≠ none := by
      cases halloc with
      | inl h => exact absurd h (by simp)
      | inr h => exact h
    obtain ⟨w, hw, hholds, hsame, -⟩ := hv.pushBack hsome c
    obtain ⟨v', hv', hholds', hsame'⟩ := ih hholds (.inr (by rw [hsame]; exact hsome))
    refine ⟨v', ?_, by rwa [List.append_assoc, List.singleton_append] at hholds',
      hsame'.trans hsame⟩
    rw [Vec.pushAll, List.foldlM_cons, hw]
    exact hv'

/-- The vector's own characters behind the others, where the room is there already. -/
theorem Holds.pushOwn (hv : v.Holds l) {pos len : Nat} (hpos : pos + len ≤ l.length)
    (halloc : len = 0 ∨ v.alloc ≠ none) (hroom : v.size + len ≤ v.capacity) :
    ∃ v', v.pushOwn pos len = some v' ∧ v'.Holds (l ++ (l.drop pos).take len) ∧
      v'.alloc = v.alloc := by
  induction len generalizing v l pos with
  | zero => exact ⟨v, rfl, by rwa [List.take_zero, List.append_nil], rfl⟩
  | succ len ih =>
    have hsome : v.alloc ≠ none := halloc.resolve_left (by omega)
    have hlt : pos < l.length := by omega
    have hread : v.data[pos]? = some l[pos] := by
      obtain ⟨rest, hrest⟩ := hv.front
      rw [← hrest, List.getElem?_append_left hlt, List.getElem?_eq_getElem hlt]
    obtain ⟨w, hw, hholds, hsame, hcap⟩ := hv.pushBack hsome l[pos]
    have hcap' := hcap (by omega)
    have hpos' : pos + 1 + len ≤ (l ++ [l[pos]]).length := by
      simp only [List.length_append, List.length_singleton]
      omega
    obtain ⟨v', hv', hholds', hsame'⟩ := ih hholds hpos' (.inr (by rw [hsame]; exact hsome))
      (by rw [hholds.size, hcap', List.length_append, ← hv.size]; simp only [List.length_singleton]; omega)
    refine ⟨v', ?_, ?_, hsame'.trans hsame⟩
    · simp only [Vec.pushOwn, hread, hw, Option.bind_eq_bind, Option.bind_some, if_pos hcap']
      exact hv'
    · rw [List.drop_append_of_le_length (by omega),
        List.take_append_of_le_length (by rw [List.length_drop]; omega), List.append_assoc] at hholds'
      rwa [List.drop_eq_getElem_cons hlt, List.take_succ_cons]

theorem front_shrinkToFit (hl : l <+: v.data) (hsize : l.length ≤ v.size) :
    l <+: v.shrinkToFit.data := by
  unfold shrinkToFit
  split
  · exact List.prefix_take_iff.mpr ⟨hl, hsize⟩
  · exact hl

@[simp] theorem size_shrinkToFit (v : Vec) : v.shrinkToFit.size = v.size := by
  unfold shrinkToFit
  split <;> rfl

theorem room_shrinkToFit (hroom : v.size ≤ v.data.length) :
    v.shrinkToFit.size ≤ v.shrinkToFit.data.length := by
  unfold shrinkToFit
  split
  · rw [List.length_take, Nat.min_eq_left hroom]
  · exact hroom

end Vec

/-! ### What an object stands for -/

namespace BasicString

/-- The list of characters a string object stands for. -/
structure Repr (n : Nat) (h : VecHeap) (s : BasicString) (l : Bytes) : Prop where
  room : s.storage.length = max n 8
  size : s.size = l.length
  inline : s.usingSso = true → l.length ≤ n - 1 ∧ l <+: s.storage
  heap : s.usingSso = false →
    ∃ v, h s.vec = some v ∧ l.length ≤ v.size ∧ v.size ≤ v.data.length ∧ l <+: v.data

/-- A string owns the vector its pointer leads to. -/
def Owns (s : BasicString) (x : UInt64) : Prop := s.usingSso = false ∧ s.vec = x

def owner (n : Nat) : CellOwner UInt64 Vec BasicString Bytes where
  owns := Owns
  stands := Repr n
  live := by
    rintro h s l x hrepr ⟨hheap, rfl⟩
    obtain ⟨v, hv, -⟩ := hrepr.heap hheap
    rw [hv]
    exact Option.some_ne_none v
  local_ := by
    intro h h' s l hrepr heq
    refine ⟨hrepr.room, hrepr.size, hrepr.inline, ?_⟩
    intro hheap
    obtain ⟨v, hv, hrest⟩ := hrepr.heap hheap
    exact ⟨v, (heq s.vec ⟨hheap, rfl⟩).trans hv, hrest⟩

/-- The operation succeeds, the string stands for `l` after it, and only the string's own
cells changed. -/
def Becomes (n : Nat) (h : VecHeap) (s : BasicString) (r : Outcome) (l : Bytes) : Prop :=
  ∃ h' s', r = some (h', s') ∧ Repr n h' s' l ∧ (owner n).Frame h s h' s'

variable {n : Nat} {h : VecHeap} {s : BasicString} {l chars : Bytes} {p : UInt64}

theorem not_owns_of_inline (hs : s.usingSso = true) (x : UInt64) : ¬ Owns s x := by
  rintro ⟨hheap, -⟩
  rw [hs] at hheap
  exact absurd hheap (by decide)

variable {l' mem : Bytes} {r : Outcome} {pos len count : Nat} {v : Vec} {t other : BasicString}
  {src : Source} {q : UInt64}

theorem Becomes.stay {s' : BasicString} (hrepr : Repr n h s' l')
    (howns : ∀ x, Owns s' x → Owns s x) : Becomes n h s (some (h, s')) l' :=
  ⟨h, s', rfl, hrepr, CellOwner.Frame.of_owns howns⟩

/-- One operation after another. -/
theorem Becomes.bind {f : VecHeap × BasicString → Outcome} (hfirst : Becomes n h s r l)
    (hnext : ∀ h' s', r = some (h', s') → Repr n h' s' l → Becomes n h' s' (f (h', s')) l') :
    Becomes n h s (r.bind f) l' := by
  obtain ⟨h', s', rfl, hrepr, hframe⟩ := hfirst
  obtain ⟨h'', s'', hr, hrepr', hframe'⟩ := hnext h' s' rfl hrepr
  exact ⟨h'', s'', hr, hrepr', hframe.trans hframe'⟩

/-! ### The buffer and the pointer -/

theorem writeBuffer_eq {bytes : Bytes} (hroom : s.storage.length = max n 8)
    (h : pos + bytes.length ≤ n) :
    s.writeBuffer n pos bytes = some { s with storage := splice s.storage pos bytes } := by
  have hlen : (s.storage.take n).length = n := by
    rw [List.length_take]
    omega
  have hsplit : splice (s.storage.take n) pos bytes ++ s.storage.drop n = splice s.storage pos bytes := by
    have hback : (s.storage.drop (pos + bytes.length)).take (n - (pos + bytes.length)) ++
        s.storage.drop n = s.storage.drop (pos + bytes.length) := by
      obtain ⟨k, rfl⟩ := Nat.exists_eq_add_of_le h
      rw [Nat.add_sub_cancel_left, ← List.drop_drop (i := k), List.take_append_drop]
    rw [splice, splice, List.take_take, Nat.min_eq_left (by omega), List.append_assoc,
      List.drop_take, hback]
  rw [writeBuffer, writeMem_eq (by omega), Option.map_some, hsplit]

/-- Characters behind the first `pos`, and the terminator. -/
theorem setInline_eq (hroom : s.storage.length = max n 8) (hl : l <+: s.storage)
    (hpos : pos ≤ l.length) (hfits : pos + chars.length + 1 ≤ n) :
    ∃ storage, s.setInline n pos chars =
        some { s with storage := storage, size := pos + chars.length } ∧
      storage.length = max n 8 ∧ l.take pos ++ chars <+: storage := by
  have hwrite : pos + (chars ++ [(0 : UInt8)]).length ≤ n := by
    simp only [List.length_append, List.length_singleton]
    omega
  refine ⟨splice s.storage pos (chars ++ [0]), ?_, ?_, ?_⟩
  · rw [setInline, writeBuffer_eq hroom hwrite]
    rfl
  · rw [length_splice (by omega), hroom]
  · have hfront := @holds_splice s.storage l (chars ++ [0]) pos hl hpos
    rw [← List.append_assoc] at hfront
    exact (List.prefix_append _ _).trans hfront

theorem Repr.ofInline (hroom : s.storage.length = max n 8) (hsize : s.size = l.length)
    (hs : s.usingSso = true) (hle : l.length ≤ n - 1) (hl : l <+: s.storage) : Repr n h s l := by
  refine ⟨hroom, hsize, fun _ => ⟨hle, hl⟩, ?_⟩
  intro hheap
  rw [hs] at hheap
  exact absurd hheap (by decide)

theorem Repr.empty (hroom : s.storage.length = max n 8) (hsize : s.size = 0)
    (hs : s.usingSso = true) : Repr n h s [] :=
  Repr.ofInline hroom hsize hs (Nat.zero_le _) List.nil_prefix

/-- The terminator of an empty string. -/
theorem writeBuffer_zero (hn : 0 < n) (hroom : s.storage.length = max n 8) :
    ∃ storage, s.writeBuffer n 0 [0] = some { s with storage := storage } ∧
      storage.length = max n 8 := by
  have hwrite : 0 + [(0 : UInt8)].length ≤ n := by
    simp only [List.length_singleton]
    omega
  refine ⟨_, writeBuffer_eq hroom hwrite, ?_⟩
  rw [length_splice (by omega), hroom]

@[simp] theorem vec_setVec (s : BasicString) (p : UInt64) : (s.setVec p).vec = p := by
  have hfront : (writeU64 p ++ s.storage.drop 8).take 8 = writeU64 p :=
    List.take_left' (writeU64_length p)
  have hval : leNat (writeU64 p) = p.toNat := by
    rw [writeU64, leNat_leBytes_of_lt (by simpa using p.toNat_lt)]
  rw [vec, setVec, hfront, hval, UInt64.ofNat_toNat]

theorem length_setVec (hroom : s.storage.length = max n 8) (p : UInt64) :
    (s.setVec p).storage.length = max n 8 := by
  simp only [setVec, List.length_append, writeU64_length, List.length_drop]
  omega

/-! ### Vectors of a string -/

/-- A string whose pointer leads to a live vector. -/
theorem Repr.ofVec (hroom : s.storage.length = max n 8) (hsize : s.size = l.length)
    (hheap : s.usingSso = false) (hv : h s.vec = some v) (hle : l.length ≤ v.size)
    (hvroom : v.size ≤ v.data.length) (hl : l <+: v.data) : Repr n h s l := by
  refine ⟨hroom, hsize, ?_, fun _ => ⟨v, hv, hle, hvroom, hl⟩⟩
  intro hs
  rw [hheap] at hs
  exact absurd hs (by decide)

theorem newVector_eq (halloc : chars = [] ∨ s.alloc ≠ none) (cap : Nat) :
    ∃ v, v.Holds chars ∧
      s.newVector h p cap chars = some (Function.update h p (some v), s.setVec p) := by
  have hstart : ((Vec.new s.alloc).reserve cap).Holds [] := (Vec.holds_new s.alloc).reserve cap
  have halloc' : chars = [] ∨ ((Vec.new s.alloc).reserve cap).alloc ≠ none := by
    rw [Vec.alloc_reserve]
    exact halloc
  obtain ⟨v, hv, hholds, -⟩ := hstart.pushAll halloc'
  refine ⟨v, hholds, ?_⟩
  rw [newVector, hv]
  rfl

/-- A string on a new vector with its characters. -/
theorem newVector_becomes (hroom : s.storage.length = max n 8)
    (hp : h p = none ∨ Owns s p) (hv : v.Holds chars)
    (ht : t = { s.setVec p with size := chars.length, usingSso := false }) :
    Becomes n h s (some (Function.update h p (some v), t)) chars := by
  subst ht
  have hvec : (BasicString.mk (s.setVec p).storage chars.length false (s.setVec p).alloc).vec = p :=
    vec_setVec s p
  refine ⟨_, _, rfl, ?_, ?_⟩
  · refine Repr.ofVec (length_setVec hroom p) rfl rfl ?_ (by rw [hv.size]) hv.room hv.front
    rw [hvec, Function.update_self]
  · refine CellOwner.Frame.of_write hp ?_
    rintro x ⟨-, hx⟩
    exact hx.symm.trans hvec

theorem onVec_eq {v' : Vec} {f : Vec → Option Vec} (hv : h s.vec = some v) (hf : f v = some v') :
    s.onVec h f = some (Function.update h s.vec (some v')) := by
  rw [onVec, hv]
  simp [hf]

/-- A string after its own vector changed. -/
theorem onVec_becomes (hrepr : Repr n h s chars)
    (hheap : s.usingSso = false) (hsize : t.size = l.length) (hstorage : t.storage = s.storage)
    (hsso : t.usingSso = false) (hle : l.length ≤ v.size) (hvroom : v.size ≤ v.data.length)
    (hl : l <+: v.data) : Becomes n h s (some (Function.update h s.vec (some v), t)) l := by
  have hvec : t.vec = s.vec := by rw [vec, vec, hstorage]
  refine ⟨_, _, rfl, ?_, ?_⟩
  · refine Repr.ofVec (by rw [hstorage]; exact hrepr.room) hsize hsso ?_ hle hvroom hl
    rw [hvec, Function.update_self]
  · refine CellOwner.Frame.of_write (.inr ⟨hheap, rfl⟩) ?_
    rintro x ⟨-, hx⟩
    exact hx.symm.trans hvec

/-! ### Construction and assignment -/

/-- A vector for `len` characters needs an allocator; a moved-from string has none. -/
def HasMemory (n : Nat) (alloc : Option Nat) (len : Nat) : Prop :=
  len < n - 1 ∨ len = 0 ∨ alloc ≠ none

/-- `operator new` may return any address that no live vector has; one that the call
itself has freed before is among them. -/
def FreeFor (h : VecHeap) (s : BasicString) (p : UInt64) : Prop := h p = none ∨ Owns s p

theorem blank_room (n : Nat) (alloc : Option Nat) : (blank n alloc).storage.length = max n 8 :=
  List.length_replicate

/-- The body shared by constructors and assignments. -/
theorem fill_becomes (hroom : s.storage.length = max n 8) (hs : s.usingSso = true)
    (hp : h p = none) (hmem : HasMemory n s.alloc chars.length) :
    Becomes n h s (s.fill n h p chars) chars := by
  by_cases hlt : chars.length < n - 1
  · obtain ⟨storage, hset, hroom', hfront⟩ :=
      @setInline_eq n s [] chars 0 hroom List.nil_prefix (Nat.le_refl 0) (by omega)
    rw [List.take_nil, List.nil_append] at hfront
    rw [fill, if_pos hlt, hset]
    refine Becomes.stay ?_ fun x hx => absurd hx (not_owns_of_inline (by exact hs) x)
    exact Repr.ofInline hroom' (Nat.zero_add _) hs (by omega) hfront
  · have halloc : chars = [] ∨ s.alloc ≠ none := by
      obtain hless | hzero | hsome := hmem
      · exact absurd hless hlt
      · exact .inl (List.eq_nil_of_length_eq_zero hzero)
      · exact .inr hsome
    obtain ⟨v, hv, hnew⟩ := newVector_eq halloc (chars.length + 1)
    rw [fill, if_neg hlt, hnew]
    exact newVector_becomes hroom (.inl hp) hv rfl

theorem ofAlloc_becomes (hn : 0 < n) (h : VecHeap) (alloc : Option Nat) :
    Becomes n h (blank n alloc) (ofAlloc n h alloc) [] := by
  obtain ⟨storage, hwrite, hroom⟩ := writeBuffer_zero hn (blank_room n alloc)
  rw [ofAlloc, hwrite]
  exact Becomes.stay (Repr.empty hroom rfl rfl) fun x hx => absurd hx (not_owns_of_inline rfl x)

/-- The heap without the string's vector. -/
def freed (h : VecHeap) (s : BasicString) : VecHeap :=
  if s.usingSso then h else Function.update h s.vec none

theorem freed_free (hp : FreeFor h s p) : freed h s p = none := by
  unfold freed
  split
  · rename_i hs
    exact hp.resolve_right (not_owns_of_inline hs p)
  · by_cases hvec : p = s.vec
    · rw [hvec, Function.update_self]
    · rw [Function.update_of_ne hvec]
      refine hp.resolve_right ?_
      rintro ⟨-, hx⟩
      exact hvec hx.symm

theorem release_eq (hrepr : Repr n h s l) :
    s.release h = some (freed h s, { s with size := 0, usingSso := true }) := by
  cases hs : s.usingSso with
  | true => simp [release, freed, hs]
  | false =>
    obtain ⟨v, hv, -⟩ := hrepr.heap hs
    simp [release, freed, hs, deleteVec, hv]

/-- What is left of the string may keep its bytes and have another allocator. -/
theorem frame_release (ht : t.usingSso = true) :
    (owner n).Frame h s (freed h s) t := by
  unfold freed
  split
  · exact CellOwner.Frame.of_owns fun x hx => absurd hx (not_owns_of_inline ht x)
  · rename_i hs
    refine CellOwner.Frame.of_free ⟨by simpa using hs, rfl⟩ fun x => not_owns_of_inline ht x

/-- Every assignment: release, and the shared body. -/
theorem refill_becomes (hrepr : Repr n h s l) (hp : FreeFor h s p) {alloc : Option Nat}
    (hmem : HasMemory n alloc chars.length) :
    Becomes n h s
      ((BasicString.mk s.storage 0 true alloc).fill n (freed h s) p chars) chars := by
  obtain ⟨h', s', heq, hrepr', hframe⟩ :=
    fill_becomes (s := BasicString.mk s.storage 0 true alloc) hrepr.room rfl (freed_free hp) hmem
  exact ⟨h', s', heq, hrepr', (frame_release rfl).trans hframe⟩

theorem clear_becomes (hn : 0 < n) (hrepr : Repr n h s l) : Becomes n h s (s.clear n h) [] := by
  obtain ⟨storage, hwrite, hroom⟩ :=
    writeBuffer_zero hn (s := BasicString.mk s.storage 0 true s.alloc) hrepr.room
  rw [clear, release_eq hrepr]
  simp only [Option.bind_eq_bind, Option.bind_some, hwrite]
  exact ⟨_, _, rfl, Repr.empty hroom rfl rfl, frame_release rfl⟩

/-! ### Growth -/

/-- The heap string's vector, when it holds the string's characters and no others and can
take more. -/
def VecGrows (h : VecHeap) (s : BasicString) : Prop :=
  ∃ v, h s.vec = some v ∧ v.size = s.size ∧ v.alloc ≠ none

/-- What `append` of `len` characters and a growing `resize` need: an inline string stays
inline or is empty, and a heap string's vector has the string's length. -/
def CanAppend (n : Nat) (h : VecHeap) (s : BasicString) (len : Nat) : Prop :=
  len = 0 ∨ (s.usingSso = true ∧ s.size + len ≤ n - 1) ∨
    (s.usingSso = true ∧ s.size = 0 ∧ s.alloc ≠ none) ∨ (s.usingSso = false ∧ VecGrows h s)

/-- What a loop of `len` calls of `push_back` needs.  It fills the buffer before it leaves
it, so it leaves an empty buffer only if that has no room for a character. -/
def CanPush (n : Nat) (h : VecHeap) (s : BasicString) (len : Nat) : Prop :=
  len = 0 ∨ (s.usingSso = true ∧ s.size + len ≤ n - 1) ∨
    (s.usingSso = true ∧ n = 1 ∧ s.alloc ≠ none) ∨ (s.usingSso = false ∧ VecGrows h s)

/-- A heap string stands for the characters of a vector that grows. -/
theorem VecGrows.holds (hgrows : VecGrows h s) (hrepr : Repr n h s l) (hs : s.usingSso = false) :
    ∃ v, h s.vec = some v ∧ v.Holds l ∧ v.alloc ≠ none := by
  obtain ⟨v, hv, hsize, halloc⟩ := hgrows
  obtain ⟨w, hw, -, -, hfront⟩ := hrepr.heap hs
  obtain rfl : v = w := Option.some.inj (hv.symm.trans hw)
  exact ⟨v, hv, ⟨by rw [hsize, hrepr.size], hfront⟩, halloc⟩

/-- The operation succeeds and leaves a heap string that can grow. -/
def Grows (n : Nat) (h : VecHeap) (s : BasicString) (r : Outcome) (l : Bytes) : Prop :=
  ∃ h' s', r = some (h', s') ∧ Repr n h' s' l ∧ (owner n).Frame h s h' s' ∧
    s'.usingSso = false ∧ VecGrows h' s'

theorem Grows.becomes (hr : Grows n h s r l) : Becomes n h s r l := by
  obtain ⟨h', s', heq, hrepr, hframe, -, -⟩ := hr
  exact ⟨h', s', heq, hrepr, hframe⟩

theorem Grows.bind {f : VecHeap × BasicString → Outcome} (hfirst : Grows n h s r l)
    (hnext : ∀ h' s', Repr n h' s' l → s'.usingSso = false → VecGrows h' s' →
      Grows n h' s' (f (h', s')) l') : Grows n h s (r.bind f) l' := by
  obtain ⟨h', s', rfl, hrepr, hframe, hs, hgrows⟩ := hfirst
  obtain ⟨h'', s'', hr, hrepr', hframe', hrest⟩ := hnext h' s' hrepr hs hgrows
  exact ⟨h'', s'', hr, hrepr', hframe.trans hframe', hrest⟩

/-- An empty inline string goes to the heap with nothing to lose. -/
theorem toVector_eq (hsize : s.size = 0) (cap : Nat) :
    s.toVector n h p cap = some
      (Function.update h p (some ((Vec.new s.alloc).reserve cap)),
        { s.setVec p with usingSso := false }) := by
  have hread : (s.setVec p).readBuffer n 0 s.size = some [] := by
    rw [readBuffer, hsize]
    exact readMem_all List.nil_prefix
  rw [toVector, hread]
  rfl

theorem toVector_becomes (hrepr : Repr n h s l) (hsize : s.size = 0) (hp : h p = none)
    (cap : Nat) : Becomes n h s (s.toVector n h p cap) l := by
  obtain rfl : l = [] := List.eq_nil_of_length_eq_zero (by rw [← hrepr.size, hsize])
  rw [toVector_eq hsize]
  refine newVector_becomes hrepr.room (.inl hp) ((Vec.holds_new s.alloc).reserve cap) ?_
  rw [List.length_nil, ← hsize]
  rfl

theorem toVector_grows (hrepr : Repr n h s l) (hsize : s.size = 0) (hp : h p = none)
    (halloc : s.alloc ≠ none) (cap : Nat) : Grows n h s (s.toVector n h p cap) l := by
  obtain ⟨h', s', heq, hrepr', hframe⟩ := toVector_becomes hrepr hsize hp cap
  refine ⟨h', s', heq, hrepr', hframe, ?_⟩
  rw [toVector_eq hsize, Option.some.injEq, Prod.mk.injEq] at heq
  obtain ⟨rfl, rfl⟩ := heq
  refine ⟨rfl, (Vec.new s.alloc).reserve cap, ?_, ?_, ?_⟩
  · have hvec := vec_setVec s p
    rw [vec] at hvec
    rw [vec, hvec, Function.update_self]
  · exact (Vec.size_reserve _ _).trans hsize.symm
  · rw [Vec.alloc_reserve]
    exact halloc

/-- Characters pushed to the vector. -/
theorem pushVec_grows (hrepr : Repr n h s l) (hs : s.usingSso = false) (hgrows : VecGrows h s)
    {f : Vec → Option Vec}
    (hf : ∀ v, h s.vec = some v → v.Holds l → v.alloc ≠ none →
      ∃ v', f v = some v' ∧ v'.Holds (l ++ chars) ∧ v'.alloc = v.alloc) :
    Grows n h s ((s.onVec h f).bind fun h => some (h, { s with size := s.size + chars.length }))
      (l ++ chars) := by
  obtain ⟨v, hv, hholds, halloc⟩ := hgrows.holds hrepr hs
  obtain ⟨v', hv', hholds', hsame⟩ := hf v hv hholds halloc
  have hsize : s.size + chars.length = (l ++ chars).length := by rw [hrepr.size, List.length_append]
  have hbecomes : Becomes n h s (some (Function.update h s.vec (some v'),
      { s with size := s.size + chars.length })) (l ++ chars) :=
    onVec_becomes hrepr hs hsize rfl hs (by rw [hholds'.size]) hholds'.room hholds'.front
  rw [onVec_eq hv hv', Option.bind_some]
  obtain ⟨h', s', heq, hrepr', hframe⟩ := hbecomes
  refine ⟨h', s', heq, hrepr', hframe, ?_⟩
  rw [Option.some.injEq, Prod.mk.injEq] at heq
  obtain ⟨rfl, rfl⟩ := heq
  refine ⟨hs, v', Function.update_self _ _ _, ?_, ?_⟩
  · rw [hholds'.size, hsize]
  · rw [hsame]
    exact halloc

/-- A character behind the others in the buffer. -/
theorem pushInline_becomes (hrepr : Repr n h s l) (hs : s.usingSso = true)
    (hfits : s.size + chars.length ≤ n - 1) (hn : 0 < n) :
    ∃ t, s.setInline n s.size chars = some t ∧ Repr n h t (l ++ chars) ∧ t.usingSso = true ∧
      t.size = s.size + chars.length ∧ t.alloc = s.alloc := by
  obtain ⟨hle, hfront⟩ := hrepr.inline hs
  have hsize := hrepr.size
  obtain ⟨storage, hset, hroom, hfront'⟩ :=
    @setInline_eq n s l chars s.size hrepr.room hfront (by omega) (by omega)
  rw [hsize, List.take_length] at hfront'
  refine ⟨_, hset, ?_, hs, rfl, rfl⟩
  refine Repr.ofInline hroom ?_ hs ?_ hfront'
  · rw [List.length_append, hsize]
  · rw [List.length_append]
    omega

/-- One `push_back`, and what the rest of a loop of them needs. -/
theorem pushBack_becomes (hn : 0 < n) (hrepr : Repr n h s l)
    (hp : s.usingSso = true → h p = none) (hcan : CanPush n h s (len + 1)) (c : UInt8) :
    ∃ h' s', s.pushBack n h p c = some (h', s') ∧ Repr n h' s' (l ++ [c]) ∧
      (owner n).Frame h s h' s' ∧ (s'.usingSso = true → h' p = none) ∧ CanPush n h' s' len := by
  have hpush : ∀ v : Vec, v.Holds l → v.alloc ≠ none →
      ∃ v', v.pushBack c = some v' ∧ v'.Holds (l ++ [c]) ∧ v'.alloc = v.alloc := by
    intro v hv halloc
    obtain ⟨v', hv', hholds, hsame, -⟩ := hv.pushBack halloc c
    exact ⟨v', hv', hholds, hsame⟩
  -- both ways onto the heap end in a vector that takes the character
  have hdone : ∀ {r : Outcome}, Grows n h s r (l ++ [c]) →
      ∃ h' s', r = some (h', s') ∧ Repr n h' s' (l ++ [c]) ∧
        (owner n).Frame h s h' s' ∧ (s'.usingSso = true → h' p = none) ∧ CanPush n h' s' len := by
    rintro r ⟨h', s', heq, hrepr', hframe, hs', hgrows⟩
    exact ⟨h', s', heq, hrepr', hframe, fun hs => absurd (hs.symm.trans hs') (by decide),
      .inr (.inr (.inr ⟨hs', hgrows⟩))⟩
  obtain hzero | ⟨hs, hfits⟩ | ⟨hs, rfl, halloc⟩ | ⟨hs, hgrows⟩ := hcan
  · exact absurd hzero (by omega)
  · obtain ⟨t, hset, hrepr', hs', hsize, -⟩ :=
      @pushInline_becomes n h s l [c] hrepr hs (by simp only [List.length_singleton]; omega) hn
    refine ⟨h, t, ?_, hrepr', ?_, fun _ => hp hs, .inr (.inl ⟨hs', ?_⟩)⟩
    · rw [pushBack, if_pos hs, if_pos (by omega), hset]
      rfl
    · exact CellOwner.Frame.of_owns fun x hx => absurd hx (not_owns_of_inline hs' x)
    · rw [hsize, List.length_singleton]
      omega
  · -- no room in the buffer for a character at all
    have hsize : s.size = 0 := by
      have := (hrepr.inline hs).1
      have := hrepr.size
      omega
    refine hdone ?_
    rw [pushBack, if_pos hs, if_neg (by omega)]
    refine (toVector_grows hrepr hsize (hp hs) halloc 0).bind ?_
    intro h' s' hrepr' hs' hgrows
    exact @pushVec_grows _ h' s' l [c] hrepr' hs' hgrows _ fun v _ => hpush v
  · refine hdone ?_
    rw [pushBack, if_neg (by rw [hs]; decide)]
    exact @pushVec_grows n h s l [c] hrepr hs hgrows _ fun v _ => hpush v

theorem pushChars_becomes (hn : 0 < n) (hrepr : Repr n h s l)
    (hp : s.usingSso = true → h p = none) (hcan : CanPush n h s chars.length) :
    Becomes n h s (s.pushChars n h p chars) (l ++ chars) := by
  induction chars generalizing h s l with
  | nil =>
    rw [List.append_nil]
    exact Becomes.stay hrepr fun _ hx => hx
  | cons c chars ih =>
    obtain ⟨h₁, s₁, hpush, hrepr₁, hframe₁, hp₁, hcan₁⟩ := pushBack_becomes hn hrepr hp hcan c
    obtain ⟨h', s', heq, hrepr', hframe'⟩ := ih hrepr₁ hp₁ hcan₁
    refine ⟨h', s', ?_, by rwa [List.append_assoc, List.singleton_append] at hrepr',
      hframe₁.trans hframe'⟩
    rw [pushChars, List.foldlM_cons, hpush]
    exact heq

/-- What `reserve` needs: a string that has to leave the buffer is empty. -/
def CanReserve (n : Nat) (s : BasicString) (newCapacity : Nat) : Prop :=
  s.usingSso = true → newCapacity ≤ n ∨ s.size = 0

/-- A vector with more room. -/
theorem reserveVec_becomes (hrepr : Repr n h s l) (hs : s.usingSso = false) (cap : Nat) :
    Becomes n h s ((s.onVec h fun v => some (v.reserve cap)).bind fun h => some (h, s)) l := by
  obtain ⟨v, hv, hle, hroom, hfront⟩ := hrepr.heap hs
  have hset : s.onVec h (fun v => some (v.reserve cap)) =
      some (Function.update h s.vec (some (v.reserve cap))) := onVec_eq hv rfl
  rw [hset, Option.bind_some]
  exact onVec_becomes hrepr hs hrepr.size rfl hs (by rwa [Vec.size_reserve])
    (Vec.room_reserve hroom cap) (Vec.front_reserve hfront hle cap)

/-- A string that can grow still can with more room. -/
theorem reserveVec_grows (hrepr : Repr n h s l) (hs : s.usingSso = false) (hgrows : VecGrows h s)
    (cap : Nat) :
    Grows n h s ((s.onVec h fun v => some (v.reserve cap)).bind fun h => some (h, s)) l := by
  obtain ⟨h', s', heq, hrepr', hframe⟩ := reserveVec_becomes hrepr hs cap
  obtain ⟨v, hv, hsize, halloc⟩ := hgrows
  refine ⟨h', s', heq, hrepr', hframe, ?_⟩
  have hset : s.onVec h (fun v => some (v.reserve cap)) =
      some (Function.update h s.vec (some (v.reserve cap))) := onVec_eq hv rfl
  rw [hset, Option.bind_some, Option.some.injEq, Prod.mk.injEq] at heq
  obtain ⟨rfl, rfl⟩ := heq
  refine ⟨hs, v.reserve cap, Function.update_self _ _ _, ?_, ?_⟩
  · rw [Vec.size_reserve, hsize]
  · rwa [Vec.alloc_reserve]

theorem capacity_eq (hrepr : Repr n h s l) : ∃ cap, s.capacity n h = some cap ∧
    (s.usingSso = true → cap = n) := by
  unfold capacity
  cases hs : s.usingSso with
  | true => exact ⟨n, rfl, fun _ => rfl⟩
  | false =>
    obtain ⟨v, hv, -⟩ := hrepr.heap hs
    refine ⟨v.capacity, ?_, fun hf => absurd hf (by decide)⟩
    rw [if_neg (by decide), hv, Option.map_some]

theorem reserve_becomes (hrepr : Repr n h s l) (hp : s.usingSso = true → h p = none)
    {newCapacity : Nat} (hcan : CanReserve n s newCapacity) :
    Becomes n h s (s.reserve n h p newCapacity) l := by
  obtain ⟨cap, hcap, hinline⟩ := capacity_eq hrepr
  simp only [reserve, hcap, Option.bind_eq_bind, Option.bind_some]
  split
  · exact Becomes.stay hrepr fun _ hx => hx
  · rename_i hlt
    split
    · rename_i hs
      have hsize : s.size = 0 := by
        refine (hcan hs).resolve_left ?_
        rw [hinline hs] at hlt
        exact hlt
      exact toVector_becomes hrepr hsize (hp hs) newCapacity
    · rename_i hs
      exact reserveVec_becomes hrepr (by simpa using hs) newCapacity

/-- The `reserve` of a growing `resize` leaves a string that takes the characters. -/
theorem reserve_grows (hn : 0 < n) (hrepr : Repr n h s l) (hp : s.usingSso = true → h p = none) (hlt : s.size < count) (hcan : CanAppend n h s (count - s.size)) :
    ∃ h' s', s.reserve n h p (count + 1) = some (h', s') ∧ Repr n h' s' l ∧
      (owner n).Frame h s h' s' ∧ (s'.usingSso = true → h' p = none) ∧
      CanPush n h' s' (count - s.size) := by
  have hdone : ∀ {r : Outcome}, Grows n h s r l →
      ∃ h' s', r = some (h', s') ∧ Repr n h' s' l ∧ (owner n).Frame h s h' s' ∧
        (s'.usingSso = true → h' p = none) ∧ CanPush n h' s' (count - s.size) := by
    rintro r ⟨h', s', heq, hrepr', hframe, hs', hgrows⟩
    exact ⟨h', s', heq, hrepr', hframe, fun hs => absurd (hs.symm.trans hs') (by decide),
      .inr (.inr (.inr ⟨hs', hgrows⟩))⟩
  have hstay : CanPush n h s (count - s.size) →
      ∃ h' s', (some (h, s) : Outcome) = some (h', s') ∧ Repr n h' s' l ∧
        (owner n).Frame h s h' s' ∧ (s'.usingSso = true → h' p = none) ∧
        CanPush n h' s' (count - s.size) := fun hpush =>
    ⟨h, s, rfl, hrepr, CellOwner.Frame.of_owns fun _ hx => hx, hp, hpush⟩
  obtain ⟨cap, hcap, hinline⟩ := capacity_eq hrepr
  simp only [reserve, hcap, Option.bind_eq_bind, Option.bind_some]
  obtain hzero | ⟨hs, hfits⟩ | ⟨hs, hsize, halloc⟩ | ⟨hs, hgrows⟩ := hcan
  · exact absurd hzero (by omega)
  · rw [if_pos (by rw [hinline hs]; omega)]
    exact hstay (.inr (.inl ⟨hs, hfits⟩))
  · by_cases hfits : count + 1 ≤ cap
    · rw [if_pos hfits]
      rw [hinline hs] at hfits
      exact hstay (.inr (.inl ⟨hs, by omega⟩))
    · rw [if_neg hfits, if_pos hs]
      exact hdone (toVector_grows hrepr hsize (hp hs) halloc _)
  · split
    · exact hstay (.inr (.inr (.inr ⟨hs, hgrows⟩)))
    · rw [if_neg (by rw [hs]; decide)]
      exact hdone (reserveVec_grows hrepr hs hgrows _)

/-- The plain list under `resize`. -/
def resized (l : Bytes) (count : Nat) : Bytes :=
  l.take count ++ List.replicate (count - l.length) 0

theorem resized_of_le (hle : count ≤ l.length) : resized l count = l.take count := by
  rw [resized, Nat.sub_eq_zero_of_le hle, List.replicate_zero, List.append_nil]

theorem resized_of_ge (hle : l.length ≤ count) :
    resized l count = l ++ List.replicate (count - l.length) 0 := by
  rw [resized, List.take_of_length_le hle]

/-- Fewer characters, with a terminator in the buffer. -/
theorem truncate_becomes (hn : 0 < n) (hrepr : Repr n h s l) (hs : s.usingSso = true)
    (hle : count ≤ l.length) :
    Becomes n h s ((s.setInline n count []).bind fun s => some (h, s)) (l.take count) := by
  obtain ⟨hfits, hfront⟩ := hrepr.inline hs
  obtain ⟨storage, hset, hroom, hfront'⟩ :=
    @setInline_eq n s l [] count hrepr.room hfront hle (by simp only [List.length_nil]; omega)
  rw [List.append_nil] at hfront'
  rw [hset, Option.bind_some]
  refine Becomes.stay ?_ fun x hx => absurd hx (not_owns_of_inline (by exact hs) x)
  refine Repr.ofInline hroom ?_ hs ?_ hfront'
  · simp only [List.length_nil, List.length_take]
    omega
  · rw [List.length_take]
    omega

theorem resize_becomes (hn : 0 < n) (hrepr : Repr n h s l) (hp : s.usingSso = true → h p = none) (hcan : CanAppend n h s (count - s.size)) :
    Becomes n h s (s.resize n h p count) (resized l count) := by
  have hsize := hrepr.size
  unfold resize
  split
  · rename_i hlt
    rw [resized_of_le (by omega)]
    split
    · rename_i hs
      exact truncate_becomes hn hrepr hs (by omega)
    · rename_i hs
      -- the vector keeps its length
      have hheap : s.usingSso = false := by simpa using hs
      obtain ⟨v, hv, hle, hroom, hfront⟩ := hrepr.heap hheap
      have hbound : count + [(0 : UInt8)].length ≤ v.data.length := by
        simp only [List.length_singleton]
        omega
      have hset : s.onVec h (fun v => (writeMem v.data count [0]).bind fun data =>
          some { v with data := data }) =
          some (Function.update h s.vec (some { v with data := splice v.data count [0] })) := by
        refine onVec_eq hv ?_
        rw [writeMem_eq hbound, Option.bind_some]
      have hfront' : l.take count <+: splice v.data count [0] :=
        (List.prefix_append _ _).trans (holds_splice hfront (by omega))
      simp only [Option.bind_eq_bind]
      rw [hset, Option.bind_some]
      refine onVec_becomes hrepr hheap ?_ rfl hheap ?_ ?_ hfront'
      · have hlen : (l.take count).length = count := List.length_take_of_le (by omega)
        exact hlen.symm
      · rw [List.length_take]
        exact (Nat.min_le_right _ _).trans hle
      · rw [length_splice hbound]
        exact hroom
  · split
    · rename_i hlt
      rw [resized_of_ge (by omega)]
      obtain ⟨h₁, s₁, heq, hrepr₁, hframe₁, hp₁, hcan₁⟩ := reserve_grows hn hrepr hp hlt hcan
      obtain ⟨h', s', heq', hrepr', hframe'⟩ := @pushChars_becomes n h₁ s₁ l
        (List.replicate (count - s.size) 0) p hn hrepr₁ hp₁ (by rwa [List.length_replicate])
      rw [hsize] at hrepr'
      have hsame : s₁.size = s.size := by rw [hrepr₁.size, hsize]
      refine ⟨h', s', ?_, hrepr', hframe₁.trans hframe'⟩
      rw [heq]
      simp only [Option.bind_eq_bind, Option.bind_some, hsame]
      exact heq'
    · have hcount : count = l.length := by omega
      rw [resized_of_le (by omega), hcount, List.take_length]
      exact Becomes.stay hrepr fun _ hx => hx

theorem popBack_becomes (hn : 0 < n) (hrepr : Repr n h s l) :
    Becomes n h s (s.popBack n h) l.dropLast := by
  have hsize := hrepr.size
  rw [List.dropLast_eq_take]
  unfold popBack
  split
  · split
    · rename_i hs
      rw [hsize]
      exact truncate_becomes hn hrepr hs (by omega)
    · rename_i hs
      have hheap : s.usingSso = false := by simpa using hs
      obtain ⟨v, hv, hle, hroom, hfront⟩ := hrepr.heap hheap
      refine Becomes.stay ?_ fun _ hx => hx
      refine Repr.ofVec hrepr.room ?_ hheap hv ?_ hroom ((List.take_prefix _ _).trans hfront)
      · rw [List.length_take]
        simp only [hsize]
        omega
      · rw [List.length_take]
        omega
  · have hnil : l = [] := List.eq_nil_of_length_eq_zero (by omega)
    rw [hnil, List.take_nil]
    rw [hnil] at hrepr
    exact Becomes.stay hrepr fun _ hx => hx

theorem shrinkToFit_becomes (hrepr : Repr n h s l) : Becomes n h s (s.shrinkToFit n h) l := by
  have hsize := hrepr.size
  unfold shrinkToFit
  split
  · exact Becomes.stay hrepr fun _ hx => hx
  · rename_i hs
    have hheap : s.usingSso = false := by simpa using hs
    obtain ⟨v, hv, hle, hroom, hfront⟩ := hrepr.heap hheap
    split
    · rename_i hlt
      -- back into the buffer; the vector is deleted through the saved pointer
      have hread : readMem v.data 0 s.size = some l := by
        rw [hsize]
        exact readMem_all hfront
      obtain ⟨storage, hset, hroom', hfront'⟩ :=
        @setInline_eq n s [] l 0 hrepr.room List.nil_prefix (Nat.le_refl 0) (by omega)
      rw [List.take_nil, List.nil_append] at hfront'
      simp only [hv, Option.bind_eq_bind, Option.bind_some, hread, hset, deleteVec, Option.map_some]
      refine ⟨_, _, rfl, Repr.ofInline hroom' (Nat.zero_add _) rfl (by omega) hfront', ?_⟩
      exact CellOwner.Frame.of_free ⟨hheap, rfl⟩ fun x => not_owns_of_inline rfl x
    · have hset : s.onVec h (fun v => some v.shrinkToFit) =
          some (Function.update h s.vec (some v.shrinkToFit)) := onVec_eq hv rfl
      simp only [Option.bind_eq_bind]
      rw [hset, Option.bind_some]
      exact onVec_becomes hrepr hheap hsize rfl hheap (by rwa [Vec.size_shrinkToFit])
        (Vec.room_shrinkToFit hroom) (Vec.front_shrinkToFit hfront hle)

/-! ### Append -/

/-- The characters a source argument stands for. -/
def Source.text (l : Bytes) : Source → Bytes
  | .chars t => t
  | .own pos len => (l.drop pos).take len

/-- Own characters are characters the string has. -/
def Source.Within (l : Bytes) : Source → Prop
  | .chars _ => True
  | .own pos len => pos + len ≤ l.length

theorem Source.read_eq (hl : l <+: mem) (hsrc : src.Within l) :
    src.read mem = some (src.text l) := by
  cases src with
  | chars t => rfl
  | own pos len => exact readMem_eq hl hsrc

theorem Source.length_text (hsrc : src.Within l) : (src.text l).length = src.length := by
  cases src with
  | chars t => rfl
  | own pos len =>
    have hle : pos + len ≤ l.length := hsrc
    simp only [text, Source.length, List.length_take, List.length_drop]
    omega

theorem buffer_front (hrepr : Repr n h s l) (hs : s.usingSso = true) : l <+: s.storage.take n := by
  obtain ⟨hle, hfront⟩ := hrepr.inline hs
  exact List.prefix_take_iff.mpr ⟨hfront, by omega⟩

/-- The room for `len` more characters and a terminator is there. -/
def NoRealloc (h : VecHeap) (s : BasicString) (len : Nat) : Prop :=
  len = 0 ∨ (s.usingSso = false → ∀ v, h s.vec = some v → s.size + len + 1 ≤ v.capacity)

/-- A heap string appended to itself must not reallocate: `s` points into its memory. -/
def OwnFits (h : VecHeap) (s : BasicString) : Source → Prop
  | .chars _ => True
  | .own _ len => NoRealloc h s len

theorem reserve_of_fits {cap : Nat} (hfits : cap ≤ v.capacity) : v.reserve cap = v :=
  if_pos (.inl hfits)

theorem appendCStr_becomes (hn : 0 < n) (hrepr : Repr n h s l) (hp : s.usingSso = true → h p = none) (hsrc : src.Within l) (hcan : CanAppend n h s src.length)
    (hown : OwnFits h s src) : Becomes n h s (s.appendCStr n h p src) (l ++ src.text l) := by
  have hlen := Source.length_text hsrc
  have hsize := hrepr.size
  unfold appendCStr
  by_cases hzero : src.length = 0
  · have hnil : src.text l = [] := List.eq_nil_of_length_eq_zero (by rw [hlen, hzero])
    rw [if_pos hzero, hnil, List.append_nil]
    exact Becomes.stay hrepr fun _ hx => hx
  rw [if_neg hzero]
  by_cases hinline : s.usingSso = true ∧ s.size + src.length ≤ n - 1
  · obtain ⟨hs, hfits⟩ := hinline
    rw [if_pos ⟨hs, hfits⟩]
    obtain ⟨t, hset, hrepr', hs', -, -⟩ := @pushInline_becomes n h s l (src.text l) hrepr hs
      (by rw [hlen]; exact hfits) hn
    simp only [Option.bind_eq_bind, src.read_eq (buffer_front hrepr hs) hsrc, Option.bind_some, hset]
    exact Becomes.stay hrepr' fun x hx => absurd hx (not_owns_of_inline hs' x)
  rw [if_neg hinline]
  obtain hz | ⟨hs, hfits⟩ | ⟨hs, hempty, halloc⟩ | ⟨hs, hgrows⟩ := hcan
  · exact absurd hz hzero
  · exact absurd ⟨hs, hfits⟩ hinline
  · -- an empty string has no characters of its own to append
    rw [if_pos hs]
    cases src with
    | chars c =>
      refine ((toVector_grows hrepr hempty (hp hs) halloc _).bind ?_).becomes
      intro h' s' hrepr' hs' hgrows
      exact @pushVec_grows n h' s' l c hrepr' hs' hgrows _ fun v _ hv halloc =>
        hv.pushAll (.inr halloc)
    | own pos len =>
      have hle : pos + len ≤ l.length := hsrc
      exact absurd (show len = 0 by omega) hzero
  · rw [if_neg (by rw [hs]; decide)]
    have hgrown : ∀ v, h s.vec = some v → v.Holds l → v.alloc ≠ none →
        ∃ v', (match src with
          | .chars t => (v.reserve (s.size + src.length + 1)).pushAll t
          | .own pos len =>
            if (v.reserve (s.size + src.length + 1)).capacity = v.capacity then
              (v.reserve (s.size + src.length + 1)).pushOwn pos len
            else none) = some v' ∧ v'.Holds (l ++ src.text l) ∧ v'.alloc = v.alloc := by
      intro v hv hholds halloc
      cases src with
      | chars c =>
        have halloc' : (v.reserve (s.size + c.length + 1)).alloc ≠ none := by
          rw [Vec.alloc_reserve]
          exact halloc
        obtain ⟨v', hv', hholds', hsame⟩ := (hholds.reserve _).pushAll (.inr halloc')
        exact ⟨v', hv', hholds', by rw [hsame, Vec.alloc_reserve]⟩
      | own pos len =>
        have hfits := hown.resolve_left hzero hs v hv
        have hroom : v.size + len ≤ v.capacity := by
          rw [hholds.size]
          omega
        obtain ⟨v', hv', hholds', hsame⟩ := hholds.pushOwn hsrc (.inr halloc) hroom
        refine ⟨v', ?_, hholds', hsame⟩
        simp only [Source.length, reserve_of_fits hfits, if_true]
        exact hv'
    have hmain := @pushVec_grows n h s l (src.text l) hrepr hs hgrows _ hgrown
    rw [hlen] at hmain
    exact hmain.becomes

/-! ### Replacement -/

/-- The plain list under `replace`. -/
def replaced (l : Bytes) (pos count : Nat) (t : Bytes) : Bytes :=
  l.take pos ++ t ++ l.drop (pos + count)

/-- The plain list under `erase`. -/
def erased (l : Bytes) (pos count : Nat) : Bytes :=
  l.take pos ++ if count = npos then [] else l.drop (pos + count)

/-- The part of the plain list that a position and a count select. -/
def part (l : Bytes) (pos count : Nat) : Bytes :=
  if count = npos then l.drop pos else (l.drop pos).take count

theorem drop_min (l : Bytes) (pos count : Nat) :
    l.drop (pos + min count (l.length - pos)) = l.drop (pos + count) := by
  rcases Nat.le_total count (l.length - pos) with hle | hle
  · rw [Nat.min_eq_left hle]
  · rw [Nat.min_eq_right hle, List.drop_of_length_le (by omega), List.drop_of_length_le (by omega)]

theorem partLength_le (size pos count : Nat) : partLength size pos count ≤ size - pos :=
  Nat.min_le_right _ _

theorem drop_partLength (l : Bytes) (pos count : Nat) (hpos : pos ≤ l.length) :
    l.take pos ++ l.drop (pos + partLength l.length pos count) = erased l pos count := by
  unfold erased partLength
  split
  · rw [Nat.min_self, List.drop_of_length_le (by omega)]
  · rw [drop_min]

theorem take_partLength (l : Bytes) (pos count : Nat) :
    (l.drop pos).take (partLength l.length pos count) = part l pos count := by
  unfold part partLength
  split
  · rw [Nat.min_self, List.take_of_length_le (by rw [List.length_drop])]
  · rcases Nat.le_total count (l.length - pos) with hle | hle
    · rw [Nat.min_eq_left hle]
    · rw [Nat.min_eq_right hle, List.take_of_length_le (by rw [List.length_drop]),
        List.take_of_length_le (by rw [List.length_drop]; exact hle)]

/-- The characters behind a position, read to the end. -/
theorem readMem_rest (hl : l <+: mem) (hlen : pos + len = l.length) :
    readMem mem pos len = some (l.drop pos) := by
  rw [readMem_eq hl (by omega), List.take_of_length_le (by rw [List.length_drop]; omega)]

/-- The terminator behind all the characters. -/
theorem terminate_becomes (hroom : t.storage.length = max n 8)
    (hs : t.usingSso = true) (hl : l <+: t.storage) (hfits : l.length + 1 ≤ n) {size : Nat}
    (hsize : size = l.length) :
    Becomes n h s ((t.setInline n size []).bind fun s => some (h, s)) l := by
  subst hsize
  obtain ⟨storage, hset, hroom', hfront⟩ := @setInline_eq n t l [] l.length hroom hl (Nat.le_refl _)
    (by rw [List.length_nil]; exact hfits)
  rw [List.take_length, List.append_nil] at hfront
  rw [hset, Option.bind_some]
  have hle : l.length ≤ n - 1 := by omega
  exact Becomes.stay (Repr.ofInline hroom' rfl hs hle hfront) fun x hx =>
    absurd hx (not_owns_of_inline (by exact hs) x)

theorem eraseAt_becomes (hn : 0 < n) (hrepr : Repr n h s l) (hpos : pos ≤ s.size)
    (count : Nat) : Becomes n h s (s.eraseAt n h pos count) (erased l pos count) := by
  have hsize := hrepr.size
  have hpart := partLength_le l.length pos count
  have hrest : pos + partLength l.length pos count +
      (l.length - pos - partLength l.length pos count) = l.length := by omega
  rw [← drop_partLength l pos count (by omega)]
  simp only [eraseAt, hsize]
  generalize hk : partLength l.length pos count = k at hpart hrest ⊢
  have htail : (l.drop (pos + k)).length = l.length - pos - k := by
    rw [List.length_drop]
    omega
  split
  · rename_i hs
    obtain ⟨hle, hfront⟩ := hrepr.inline hs
    have hread : s.readBuffer n (pos + k) (l.length - pos - k) = some (l.drop (pos + k)) :=
      readMem_rest (buffer_front hrepr hs) hrest
    have hbound : pos + (l.drop (pos + k)).length ≤ n := by omega
    have hroom := hrepr.room
    have hpos' : pos ≤ l.length := by omega
    simp only [Option.bind_eq_bind, hread, Option.bind_some, writeBuffer_eq hroom hbound]
    refine terminate_becomes (t := { s with storage := splice s.storage pos (l.drop (pos + k)) })
      ?_ hs (holds_splice hfront hpos') ?_ ?_
    · rw [length_splice (by omega), hroom]
    · simp only [List.length_append, List.length_take, htail]
      omega
    · simp only [List.length_append, List.length_take, htail]
      omega
  · rename_i hs
    have hheap : s.usingSso = false := by simpa using hs
    obtain ⟨v, hv, hle, hroom, hfront⟩ := hrepr.heap hheap
    have hread : readMem v.data (pos + k) (l.length - pos - k) = some (l.drop (pos + k)) :=
      readMem_rest hfront hrest
    have hbound : pos + (l.drop (pos + k)).length ≤ v.data.length := by omega
    have hset : s.onVec h (fun v => (readMem v.data (pos + k) (l.length - pos - k)).bind fun tail =>
        (writeMem v.data pos tail).bind fun data => some { v with data := data }) =
        some (Function.update h s.vec (some { v with data := splice v.data pos (l.drop (pos + k)) })) := by
      refine onVec_eq hv ?_
      simp only [hread, Option.bind_some, writeMem_eq hbound]
    simp only [Option.bind_eq_bind]
    rw [hset, Option.bind_some]
    have hlen : (l.take pos ++ l.drop (pos + k)).length = l.length - k := by
      simp only [List.length_append, List.length_take, htail]
      omega
    refine onVec_becomes hrepr hheap hlen.symm rfl hheap ?_ ?_ (holds_splice hfront (by omega))
    · rw [hlen]
      exact (Nat.sub_le _ _).trans hle
    · rw [length_splice hbound]
      exact hroom

/-- `memcpy` from the string's own buffer is allowed where it writes behind what it reads. -/
def OwnApart (pos : Nat) : Source → Prop
  | .chars _ => True
  | .own start len => start + len ≤ pos

/-- What `replace` by `len` characters needs: a string that has to leave the buffer is
empty, and a vector has an allocator; a string that stays inline is not copied over
itself (`apart`). -/
def CanReplace (n : Nat) (s : BasicString) (pos count len : Nat) (apart : Prop) : Prop :=
  let newSize := s.size - min count (s.size - pos) + len
  if s.usingSso = true ∧ newSize ≤ n - 1 then apart
  else (s.usingSso = true → s.size = 0) ∧ (newSize = 0 ∨ s.alloc ≠ none)

theorem CanReplace.imp {apart apart' : Prop} (himp : apart → apart')
    (hcan : CanReplace n s pos count len apart) : CanReplace n s pos count len apart' := by
  simp only [CanReplace] at hcan ⊢
  by_cases hinline : s.usingSso = true ∧ s.size - min count (s.size - pos) + len ≤ n - 1
  · rw [if_pos hinline] at hcan ⊢
    exact himp hcan
  · rw [if_neg hinline] at hcan ⊢
    exact hcan

theorem replaceVec_becomes (hrepr : Repr n h s l) (hs : s.usingSso = false)
    (hq : FreeFor h s q) (hsrc : src.Within l) {k : Nat}
    (hpos : pos + k ≤ l.length) (halloc : l.length - k + src.length = 0 ∨ s.alloc ≠ none) :
    Becomes n h s (s.replaceVec n h q pos k src) (l.take pos ++ src.text l ++ l.drop (pos + k)) := by
  have hsize := hrepr.size
  have htext := Source.length_text hsrc
  obtain ⟨v, hv, hle, hroom, hfront⟩ := hrepr.heap hs
  have hdata : s.getData n h = some v.data := by
    rw [getData, if_neg (by rw [hs]; decide), hv, Option.map_some]
  have hbefore : readMem v.data 0 pos = some (l.take pos) := readMem_eq hfront (by omega)
  have hafter : readMem v.data (pos + k) (s.size - (pos + k)) = some (l.drop (pos + k)) :=
    readMem_rest hfront (by omega)
  have hchars := src.read_eq hfront hsrc
  generalize hcontent : l.take pos ++ src.text l ++ l.drop (pos + k) = content
  have hlen : content.length = l.length - k + src.length := by
    rw [← hcontent]
    simp only [List.length_append, List.length_take, List.length_drop, htext]
    omega
  have halloc' : content = [] ∨ s.alloc ≠ none := by
    refine halloc.imp_left fun hz => List.eq_nil_of_length_eq_zero (by omega)
  obtain ⟨w, hw, hwholds, -⟩ := (Vec.holds_new s.alloc).pushAll halloc'
  rw [List.nil_append] at hwholds
  have hread : readMem w.data 0 w.size = some content := by
    rw [hwholds.size]
    exact readMem_all hwholds.front
  have hdelete : s.deleteVec h = some (freed h s) := by
    rw [deleteVec, hv, Option.map_some, freed, if_neg (by rw [hs]; decide)]
  obtain ⟨u, hu, hnew⟩ := @newVector_eq (freed h s) s content q halloc' 0
  unfold replaceVec
  simp only [Option.bind_eq_bind, hdata, hbefore, hchars, hafter, Option.bind_some, hcontent, hw,
    hread, hdelete, hnew]
  -- between its two vectors the string owns nothing
  have hbecomes : Becomes n (freed h s) (BasicString.mk s.storage 0 true s.alloc)
      (some (Function.update (freed h s) q (some u), { s.setVec q with size := w.size })) content := by
    rw [hwholds.size]
    have ht : { s.setVec q with size := content.length } =
        { (BasicString.mk s.storage 0 true s.alloc).setVec q with
          size := content.length, usingSso := false } := by
      simp only [setVec, hs]
    have hroom : (BasicString.mk s.storage 0 true s.alloc).storage.length = max n 8 := hrepr.room
    exact newVector_becomes hroom (.inl (freed_free hq)) hu ht
  obtain ⟨h', s', heq, hrepr', hframe⟩ := hbecomes
  exact ⟨h', s', heq, hrepr', (frame_release rfl).trans hframe⟩

theorem not_overlaps (hapart : OwnApart pos src) :
    src.overlaps pos = false := by
  cases src with
  | chars t => rfl
  | own start len =>
    have hle : start + len ≤ pos := hapart
    simp only [Source.overlaps, decide_eq_false_iff_not]
    omega

/-- A source in front of `pos` is there after a write behind `pos`. -/
theorem Source.read_apart (hapart : OwnApart pos src)
    (hsrc : src.Within l) (hl : l.take pos <+: mem) : src.read mem = some (src.text l) := by
  cases src with
  | chars t => rfl
  | own start len =>
    have hle : start + len ≤ pos := hapart
    have hwithin : start + len ≤ l.length := hsrc
    have hread : readMem mem start len = some (((l.take pos).drop start).take len) :=
      readMem_eq hl (by rw [List.length_take]; omega)
    rw [List.drop_take, List.take_take, Nat.min_eq_left (by omega)] at hread
    exact hread

theorem replaceAt_becomes (hn : 0 < n) (hrepr : Repr n h s l) (hp : s.usingSso = true → h p = none) (hq : FreeFor h s q) (hsrc : src.Within l)
    (hpos : pos ≤ s.size) (hcan : CanReplace n s pos count src.length (OwnApart pos src)) :
    Becomes n h s (s.replaceAt n h p q pos count src) (replaced l pos count (src.text l)) := by
  have hsize := hrepr.size
  have htext := Source.length_text hsrc
  have hspec : replaced l pos count (src.text l) =
      l.take pos ++ src.text l ++ l.drop (pos + min count (l.length - pos)) := by
    rw [replaced, drop_min]
  rw [hspec]
  unfold CanReplace at hcan
  simp only [replaceAt, hsize] at hcan ⊢
  have hk : pos + min count (l.length - pos) ≤ l.length := by omega
  generalize min count (l.length - pos) = k at hcan hk ⊢
  by_cases hinline : s.usingSso = true ∧ l.length - k + src.length ≤ n - 1
  · obtain ⟨hs, hfits⟩ := hinline
    obtain ⟨hle, hfront⟩ := hrepr.inline hs
    have hroom := hrepr.room
    rw [if_pos ⟨hs, hfits⟩] at hcan
    rw [if_pos ⟨hs, hfits⟩]
    have htail : (l.drop (pos + k)).length = l.length - pos - k := by
      rw [List.length_drop]
      omega
    have hread : s.readBuffer n (pos + k) (l.length - pos - k) = some (l.drop (pos + k)) :=
      readMem_rest (buffer_front hrepr hs) (by omega)
    have hbound : pos + src.length + (l.drop (pos + k)).length ≤ n := by omega
    -- the tail first, then the source in front of it
    have hroom₁ : (splice s.storage (pos + src.length) (l.drop (pos + k))).length = max n 8 := by
      rw [length_splice (by omega), hroom]
    have hbuffer : l.take pos <+: (splice s.storage (pos + src.length) (l.drop (pos + k))).take n := by
      refine List.prefix_take_iff.mpr ⟨?_, by rw [List.length_take]; omega⟩
      have hcut : l.take pos <+: s.storage.take (pos + src.length) :=
        List.prefix_take_iff.mpr ⟨(List.take_prefix _ _).trans hfront,
          by rw [List.length_take]; omega⟩
      rw [splice, List.append_assoc]
      exact hcut.trans (List.prefix_append _ _)
    have hsource := src.read_apart hcan hsrc hbuffer
    have hbound₂ : pos + (src.text l).length ≤ n := by omega
    simp only [Option.bind_eq_bind, hread, Option.bind_some, writeBuffer_eq hroom hbound,
      not_overlaps hcan, Bool.false_eq_true, if_false, hsource]
    rw [writeBuffer_eq (s := { s with storage := splice s.storage (pos + src.length) (l.drop (pos + k)) })
      hroom₁ hbound₂, Option.bind_some]
    generalize hstorage : splice (splice s.storage (pos + src.length) (l.drop (pos + k))) pos
      (src.text l) = storage
    refine terminate_becomes (t := { s with storage := storage }) ?_ hs ?_ ?_ ?_
    · rw [← hstorage, length_splice (by omega), hroom₁]
    · have hsplit := @splice_splice s.storage (src.text l) pos (l.drop (pos + k)) (by omega)
      rw [htext, hstorage] at hsplit
      rw [hsplit]
      have htake : l.take pos = s.storage.take pos := by
        obtain ⟨rest, hrest⟩ := hfront
        rw [← hrest, List.take_append_of_le_length (by omega)]
      rw [htake, ← List.append_assoc]
      exact List.prefix_append _ _
    · simp only [List.length_append, List.length_take, htail, htext]
      omega
    · simp only [List.length_append, List.length_take, htail, htext]
      omega
  · rw [if_neg hinline] at hcan
    rw [if_neg hinline]
    obtain ⟨hempty, halloc⟩ := hcan
    by_cases hs : s.usingSso = true
    · have hzero : s.size = 0 := by rw [hsize]; exact hempty hs
      rw [if_pos hs]
      refine Becomes.bind (toVector_becomes hrepr hzero (hp hs) _) ?_
      intro h' s' heq hrepr'
      rw [toVector_eq hzero, Option.some.injEq, Prod.mk.injEq] at heq
      obtain ⟨rfl, rfl⟩ := heq
      refine replaceVec_becomes hrepr' rfl ?_ hsrc hk halloc
      by_cases hqp : q = p
      · refine .inr ⟨rfl, ?_⟩
        rw [hqp]
        exact vec_setVec s p
      · refine .inl ?_
        rw [Function.update_of_ne hqp]
        exact hq.resolve_right (not_owns_of_inline hs q)
    · rw [if_neg hs]
      simp only [Option.bind_eq_bind, Option.bind_some]
      exact replaceVec_becomes hrepr (by simpa using hs) hq hsrc hk halloc

/-! ### Characters of another string -/

theorem getData_eq (hrepr : Repr n h s l) : ∃ mem, s.getData n h = some mem ∧ l <+: mem := by
  unfold getData
  split
  · rename_i hs
    exact ⟨_, rfl, buffer_front hrepr hs⟩
  · rename_i hs
    obtain ⟨v, hv, -, -, hfront⟩ := hrepr.heap (by simpa using hs)
    exact ⟨v.data, by rw [hv, Option.map_some], hfront⟩

theorem str_eq (hrepr : Repr n h s l) : s.str n h = some l := by
  obtain ⟨mem, hmem, hfront⟩ := getData_eq hrepr
  rw [str, hmem, hrepr.size]
  exact readMem_all hfront

theorem ofCopy_becomes (hother : Repr n h other l) (hp : h p = none)
    (hmem : HasMemory n other.alloc l.length) :
    Becomes n h (blank n other.alloc) (ofCopy n h other p) l := by
  obtain ⟨mem, hget, hfront⟩ := getData_eq hother
  have hread : readMem mem 0 other.size = some l := by
    rw [hother.size]
    exact readMem_all hfront
  simp only [ofCopy, hget, Option.bind_eq_bind, Option.bind_some, hread]
  exact fill_becomes (blank_room n _) rfl hp hmem

/-- The part of another string, or the exception. -/
theorem ofSubstr_eq (hother : Repr n h other l)
    (hpos : pos ≤ other.size) (count : Nat) (alloc : Option Nat) (p : UInt64) :
    ofSubstr n h other pos count alloc p = ((blank n alloc).fill n h p (part l pos count)).map .ok := by
  obtain ⟨mem, hget, hfront⟩ := getData_eq hother
  have hle := partLength_le other.size pos count
  have hread : readMem mem pos (partLength other.size pos count) = some (part l pos count) := by
    rw [readMem_eq hfront (by rw [← hother.size]; omega), hother.size, take_partLength]
  rw [ofSubstr, if_neg (by omega)]
  simp only [hget, Option.bind_eq_bind, Option.bind_some, hread]

/-- A move: this string stands for what the other did and has its vector; the other is
empty, inline and without an allocator. -/
theorem take_eq (hn : 0 < n) (hroom : s.storage.length = max n 8) (hother : Repr n h other l) :
    ∃ t o, s.take n other = some (t, o) ∧ Repr n h t l ∧ Repr n h o [] ∧ o.usingSso = true ∧
      ∀ x, Owns t x → Owns other x := by
  have hsize := hother.size
  cases hs : other.usingSso with
  | true =>
    obtain ⟨hle, hfront⟩ := hother.inline hs
    have hread : other.readBuffer n 0 other.size = some l := by
      rw [readBuffer, hsize]
      exact readMem_all (buffer_front hother hs)
    have hset := @setInline_eq n (BasicString.mk s.storage other.size true other.alloc) [] l 0 hroom
      List.nil_prefix (Nat.le_refl 0) (by omega)
    rw [List.take_nil, List.nil_append] at hset
    obtain ⟨storage, hset, hroom', hfront'⟩ := hset
    refine ⟨BasicString.mk storage (0 + l.length) true other.alloc,
      BasicString.mk other.storage 0 true none, ?_, Repr.ofInline hroom' (Nat.zero_add _) rfl hle hfront',
      Repr.empty hother.room rfl rfl, rfl, fun x hx => absurd hx (not_owns_of_inline rfl x)⟩
    simp only [take, hs, if_true, hread, Option.bind_eq_bind, Option.bind_some, hset]
  | false =>
    obtain ⟨v, hv, hle, hvroom, hfront⟩ := hother.heap hs
    have hother8 : (other.storage.take 8).length = 8 := by
      rw [List.length_take, hother.room]
      omega
    have hvec : (BasicString.mk (other.storage.take 8 ++ s.storage.drop 8) other.size false
        other.alloc).vec = other.vec := by
      rw [vec, vec, List.take_left' hother8]
    refine ⟨BasicString.mk (other.storage.take 8 ++ s.storage.drop 8) other.size false other.alloc,
      BasicString.mk other.storage 0 true none, ?_,
      Repr.ofVec ?_ hsize rfl (by rw [hvec]; exact hv) hle hvroom hfront,
      Repr.empty hother.room rfl rfl, rfl, ?_⟩
    · simp only [take, hs, Bool.false_eq_true, if_false, Option.bind_eq_bind, Option.bind_some]
    · rw [List.length_append, hother8, List.length_drop, hroom]
      omega
    · rintro x ⟨-, hx⟩
      exact ⟨hs, hvec.symm.trans hx⟩

/-- With equal modes each string becomes the other. -/
theorem swap_eq (hmode : s.usingSso = t.usingSso) : s.swap t = (t, s) := by
  cases s
  cases t
  cases hmode
  rfl

/-! ### Replacement by a C string -/

/-- A new vector is all that the shared body writes. -/
theorem fill_elsewhere {h' : VecHeap} {s' : BasicString} (heq : s.fill n h p chars = some (h', s'))
    {x : UInt64} (hx : x ≠ p) : h' x = h x := by
  unfold fill at heq
  split at heq
  · obtain ⟨t, -, heq⟩ := Option.bind_eq_some_iff.mp heq
    rw [Option.some.injEq, Prod.mk.injEq] at heq
    rw [← heq.1]
  · obtain ⟨⟨h₁, s₁⟩, hnew, heq⟩ := Option.bind_eq_some_iff.mp heq
    obtain ⟨v, -, hnew⟩ := Option.bind_eq_some_iff.mp hnew
    rw [Option.some.injEq, Prod.mk.injEq] at hnew heq
    rw [← heq.1, ← hnew.1, Function.update_of_ne hx]

theorem replaceCStr_becomes (hn : 0 < n) (hrepr : Repr n h s l) {r : UInt64}
    (hp : s.usingSso = true → h p = none) (hq : FreeFor h s q) (hr : h r = none) (hrp : p ≠ r)
    (hrq : q ≠ r) {t : Bytes} (hpos : pos ≤ s.size)
    (hmem : HasMemory n s.alloc (cStr t).length)
    (hcan : CanReplace n s pos count (cStr t).length True) :
    ∃ h' s', s.replaceCStr n h p q r pos count (some t) = some (.ok (h', s')) ∧
      Repr n h' s' (replaced l pos count (cStr t)) ∧ (owner n).Frame h s h' s' := by
  -- the temporary
  obtain ⟨h₁, temp, htemp, hrtemp, hmake⟩ :=
    fill_becomes (blank_room n s.alloc) rfl hr hmem
  have helse : ∀ x, x ≠ r → h₁ x = h x := fun x hx => fill_elsewhere htemp hx
  have hnone : ∀ x, ¬ Owns (blank n s.alloc) x := not_owns_of_inline rfl
  have hrepr₁ : Repr n h₁ s l := hmake.stands_beside hrepr fun x _ hx => hnone x hx
  -- the replacement beside it
  have hq₁ : FreeFor h₁ s q := by rwa [FreeFor, helse q hrq]
  have hwithin : Source.Within l (.chars (cStr t)) := trivial
  obtain ⟨h₂, s₂, hreplace, hrepr₂, hstep⟩ :=
    replaceAt_becomes hn hrepr₁ (fun hs => by rw [helse p hrp]; exact hp hs) hq₁ hwithin hpos hcan
  have hapart : ∀ x, Owns temp x → ¬ Owns s x := by
    intro x hx hsx
    exact (hmake x ((owner n).live hrepr hsx) (hnone x)).2 hx
  have hrtemp₂ : Repr n h₂ temp (cStr t) := hstep.stands_beside hrtemp hapart
  have hdrop : (owner n).Frame h₂ temp (freed h₂ temp)
      { temp with size := 0, usingSso := true } := frame_release rfl
  obtain ⟨hframe, hkeep⟩ := CellOwner.Frame.with_temporary hnone hrepr hrtemp hmake hstep hdrop
  refine ⟨freed h₂ temp, s₂, ?_, hkeep hrepr₂, hframe⟩
  have hcheck : s.replace n h₁ p q pos count (.chars (cStr t)) = some (.ok (h₂, s₂)) := by
    rw [replace, if_neg (by omega), hreplace]
    rfl
  simp only [replaceCStr, ofCStr, htemp, Option.bind_eq_bind, Option.bind_some, str_eq hrtemp, hcheck,
    release_eq hrtemp₂]

/-- Out of range: the temporary is made and destroyed, and the exception goes on. -/
theorem replaceCStr_throws {r : UInt64} (hr : h r = none) {t : Bytes} (count : Nat)
    (hpos : s.size < pos) (hmem : HasMemory n s.alloc (cStr t).length) :
    s.replaceCStr n h p q r pos count (some t) =
      some (.error "Replace position out of range") := by
  obtain ⟨h₁, temp, htemp, hrtemp, -⟩ := fill_becomes (blank_room n s.alloc) rfl hr hmem
  simp only [replaceCStr, ofCStr, htemp, Option.bind_eq_bind, Option.bind_some, str_eq hrtemp, replace,
    if_pos hpos]

end BasicString

end Priv

end IowarpCore
