/-
Files of bytes, and files kept in pages.

A `ByteFile` is what a file is for: its size and the bytes that were written, each as it was
last written.  A byte that was not written has no value, also if it is inside the file.

In pages of `ps` bytes, byte `x` is byte `x % ps` of page `x / ps`.  A page is as long as the
last byte written to it requires (`Paged`).  The sizes of the pages add up to the size of
the file exactly when the byte before every page boundary inside the file was written
(`Paged.sum_eq_size_iff`), and then every page is as long as the file says
(`Paged.length_page`).
-/
import Mathlib.Algebra.Order.BigOperators.Group.Finset
import IowarpCore.Lib.Bytes

namespace IowarpCore

/-- A file with the bytes that were written. -/
@[ext]
structure ByteFile where
  size : Nat
  byte : Nat → Option UInt8
  bound : ∀ x, (byte x).isSome → x < size
  tip : size = 0 ∨ (byte (size - 1)).isSome

namespace ByteFile

def empty : ByteFile where
  size := 0
  byte := fun _ => none
  bound := fun _ h => by cases h
  tip := Or.inl rfl

/-- The bytes at and after `off` replace what was there.  Writing nothing changes nothing. -/
def write (f : ByteFile) (off : Nat) (data : Bytes) : ByteFile where
  size := if data = [] then f.size else max f.size (off + data.length)
  byte := fun x => (if off ≤ x then data[x - off]? else none).or (f.byte x)
  bound := by
    intro x hx
    by_cases hdata : data = []
    · subst hdata
      rw [if_pos rfl]
      refine f.bound x ?_
      simpa using hx
    · rw [if_neg hdata]
      rw [Option.isSome_or] at hx
      rcases Bool.or_eq_true_iff.mp hx with hnew | hold
      · split at hnew
        · have hlt : x - off < data.length := by simpa using hnew
          omega
        · cases hnew
      · have := f.bound x hold
        omega
  tip := by
    by_cases hdata : data = []
    · subst hdata
      rw [if_pos rfl]
      refine f.tip.imp_right fun h => ?_
      simpa using h
    · have hpos : 0 < data.length := List.length_pos_iff.mpr hdata
      rw [if_neg hdata]
      right
      rw [Option.isSome_or]
      rcases Nat.le_total f.size (off + data.length) with hle | hle
      · have hlt : off + data.length - 1 - off < data.length := by omega
        rw [max_eq_right hle, if_pos (by omega), List.getElem?_eq_getElem hlt]
        rfl
      · rw [max_eq_left hle]
        rcases f.tip with hzero | htip
        · omega
        · rw [htip, Bool.or_true]

variable {f : ByteFile} {off : Nat} {data : Bytes}

theorem write_nil (f : ByteFile) (off : Nat) : f.write off [] = f := by
  refine ByteFile.ext (by simp [write]) (funext fun x => ?_)
  simp [write]

theorem size_write (hdata : data ≠ []) : (f.write off data).size = max f.size (off + data.length) :=
  if_neg hdata

theorem byte_write_inside {x : Nat} (hlow : off ≤ x) (hhigh : x < off + data.length) :
    (f.write off data).byte x = data[x - off]? := by
  have hlt : x - off < data.length := by omega
  simp [write, hlow, List.getElem?_eq_getElem hlt]

theorem byte_write_outside {x : Nat} (hx : x < off ∨ off + data.length ≤ x) :
    (f.write off data).byte x = f.byte x := by
  unfold write
  dsimp only
  split
  · rw [List.getElem?_eq_none (by omega), Option.none_or]
  · rfl

/-- Writing in two pieces. -/
theorem write_append (f : ByteFile) (off : Nat) (data rest : Bytes) :
    f.write off (data ++ rest) = (f.write off data).write (off + data.length) rest := by
  by_cases hdata : data = []
  · rw [hdata, List.nil_append, write_nil, List.length_nil, Nat.add_zero]
  by_cases hrest : rest = []
  · rw [hrest, List.append_nil, write_nil]
  have hboth : data ++ rest ≠ [] := by simp [hdata]
  refine ByteFile.ext ?_ (funext fun x => ?_)
  · rw [size_write hboth, size_write hrest, size_write hdata, List.length_append]
    omega
  · by_cases hsecond : off + data.length ≤ x ∧ x < off + data.length + rest.length
    · rw [byte_write_inside (by omega) (by rw [List.length_append]; omega),
        byte_write_inside hsecond.1 hsecond.2, List.getElem?_append_right (by omega)]
      congr 1
      omega
    have hsecond : ((f.write off data).write (off + data.length) rest).byte x =
        (f.write off data).byte x := byte_write_outside (by omega)
    rw [hsecond]
    by_cases hfirst : off ≤ x ∧ x < off + data.length
    · rw [byte_write_inside hfirst.1 (by rw [List.length_append]; omega),
        byte_write_inside hfirst.1 hfirst.2, List.getElem?_append_left (by omega)]
    · rw [byte_write_outside (by rw [List.length_append]; omega), byte_write_outside (by omega)]

/-- The byte before every page boundary inside the file was written. -/
def Full (ps : Nat) (f : ByteFile) : Prop :=
  ∀ p, (p + 1) * ps < f.size → (f.byte ((p + 1) * ps - 1)).isSome

end ByteFile

/-! ### Overwriting a range -/

/-- The bytes of `data` replace those at and after `off`.  Bytes between the end and `off` are
not specified. -/
def patch (junk : Nat → UInt8) (off : Nat) (data blob : Bytes) : Bytes :=
  (List.range (max blob.length (off + data.length))).map fun i =>
    if off ≤ i ∧ i < off + data.length then data.getD (i - off) 0 else blob.getD i (junk i)

section

variable {junk : Nat → UInt8} {off i : Nat} {data blob : Bytes}

@[simp] theorem length_patch :
    (patch junk off data blob).length = max blob.length (off + data.length) := by
  simp [patch]

theorem getElem?_patch_inside (hlow : off ≤ i) (hhigh : i < off + data.length) :
    (patch junk off data blob)[i]? = data[i - off]? := by
  have hlt : i - off < data.length := by omega
  rw [patch, List.getElem?_map, List.getElem?_range (by omega), Option.map_some,
    if_pos ⟨hlow, hhigh⟩, List.getD_eq_getElem?_getD, List.getElem?_eq_getElem hlt]
  rfl

theorem getElem?_patch_outside (hi : i < blob.length) (hout : i < off ∨ off + data.length ≤ i) :
    (patch junk off data blob)[i]? = blob[i]? := by
  rw [patch, List.getElem?_map, List.getElem?_range (by omega), Option.map_some,
    if_neg (by omega), List.getD_eq_getElem?_getD, List.getElem?_eq_getElem hi]
  rfl

end

/-! ### Pages -/

theorem div_mod_of_room {a c j : Nat} (h : a % c + j < c) :
    (a + j) / c = a / c ∧ (a + j) % c = a % c + j := by
  have hmod : (a + j) % c = a % c + j := by rw [← Nat.mod_add_mod, Nat.mod_eq_of_lt h]
  have ha := Nat.div_add_mod a c
  have hj := Nat.div_add_mod (a + j) c
  have hc : 0 < c := by omega
  refine ⟨Nat.eq_of_mul_eq_mul_left hc ?_, hmod⟩
  omega

theorem page_pos {p c k : Nat} (h : k < c) : (p * c + k) / c = p ∧ (p * c + k) % c = k := by
  have hc : 0 < c := by omega
  constructor
  · rw [Nat.mul_comm, Nat.mul_add_div hc, Nat.div_eq_of_lt h, Nat.add_zero]
  · rw [Nat.mul_comm, Nat.mul_add_mod, Nat.mod_eq_of_lt h]

/-- The pages of a file. -/
structure Paged (ps : Nat) (page : Nat → Bytes) (f : ByteFile) : Prop where
  content : ∀ x b, f.byte x = some b → (page (x / ps))[x % ps]? = some b
  within : ∀ p, (page p).length ≤ ps
  /-- The last byte of a page was written. -/
  tip : ∀ p, page p ≠ [] → (f.byte (p * ps + ((page p).length - 1))).isSome

namespace Paged

variable {ps : Nat} {page : Nat → Bytes} {f : ByteFile}

theorem empty (ps : Nat) : Paged ps (fun _ => []) ByteFile.empty where
  content _ _ h := by cases h
  within _ := Nat.zero_le _
  tip _ h := absurd rfl h

/-- **A write inside one page.** -/
theorem write (h : Paged ps page f) (junk : Nat → UInt8) {off : Nat} {data : Bytes}
    (hdata : data ≠ []) (hroom : off % ps + data.length ≤ ps) :
    Paged ps (Function.update page (off / ps) (patch junk (off % ps) data (page (off / ps))))
      (f.write off data) := by
  have hpos : 0 < data.length := List.length_pos_iff.mpr hdata
  have hoff := Nat.div_add_mod' off ps
  refine ⟨?_, ?_, ?_⟩
  · intro x b hx
    by_cases hin : off ≤ x ∧ x < off + data.length
    · -- the byte is new
      rw [ByteFile.byte_write_inside hin.1 hin.2] at hx
      obtain ⟨hdiv, hmod⟩ := div_mod_of_room (a := off) (c := ps) (j := x - off) (by omega)
      rw [Nat.add_sub_of_le hin.1] at hdiv hmod
      rw [hdiv, hmod, Function.update_self, getElem?_patch_inside (by omega) (by omega), ← hx]
      congr 1
      omega
    · rw [ByteFile.byte_write_outside (by omega)] at hx
      have hold := h.content x b hx
      by_cases hpage : x / ps = off / ps
      · have hxx := Nat.div_add_mod' x ps
        rw [hpage] at hold hxx ⊢
        rw [Function.update_self, getElem?_patch_outside _ (by omega)]
        · exact hold
        · exact (List.getElem?_eq_some_iff.mp hold).1
      · rw [Function.update_of_ne hpage]
        exact hold
  · intro p
    by_cases hp : p = off / ps
    · subst hp
      rw [Function.update_self, length_patch]
      have := h.within (off / ps)
      omega
    · rw [Function.update_of_ne hp]
      exact h.within p
  · intro p hne
    by_cases hp : p = off / ps
    · subst hp
      rw [Function.update_self, length_patch]
      rcases Nat.le_total (page (off / ps)).length (off % ps + data.length) with hle | hle
      · have hlt : off + data.length - 1 - off < data.length := by omega
        rw [max_eq_right hle, show off / ps * ps + (off % ps + data.length - 1) =
          off + data.length - 1 by omega, ByteFile.byte_write_inside (by omega) (by omega),
          List.getElem?_eq_getElem hlt]
        rfl
      · rw [max_eq_left hle]
        have hold : page (off / ps) ≠ [] := List.ne_nil_of_length_pos (by omega)
        have htip := h.tip _ hold
        by_cases hend : (page (off / ps)).length = off % ps + data.length
        · have hlt : off + data.length - 1 - off < data.length := by omega
          rw [hend, show off / ps * ps + (off % ps + data.length - 1) = off + data.length - 1 by
            omega, ByteFile.byte_write_inside (by omega) (by omega), List.getElem?_eq_getElem hlt]
          rfl
        · rw [ByteFile.byte_write_outside (by omega)]
          exact htip
    · rw [Function.update_of_ne hp] at hne ⊢
      have htip := h.tip p hne
      rw [ByteFile.byte_write_outside]
      · exact htip
      · -- another page is before or after the range
        have hlen := h.within p
        have hpos' : 0 < (page p).length := List.length_pos_iff.mpr hne
        rcases Nat.lt_or_gt_of_ne hp with hlt | hgt
        · left
          have := Nat.mul_le_mul_right ps (Nat.succ_le_of_lt hlt)
          rw [Nat.succ_mul] at this
          omega
        · right
          have := Nat.mul_le_mul_right ps (Nat.succ_le_of_lt hgt)
          rw [Nat.succ_mul] at this
          omega

/-- A page reaches no further than the file. -/
theorem length_le (h : Paged ps page f) (p : Nat) :
    (page p).length ≤ min ps (f.size - p * ps) := by
  refine le_min (h.within p) ?_
  by_cases hne : page p = []
  · simp [hne]
  · have hpos : 0 < (page p).length := List.length_pos_iff.mpr hne
    have := f.bound _ (h.tip p hne)
    omega

theorem sum_min (ps size N : Nat) :
    ∑ p ∈ Finset.range N, min ps (size - p * ps) = min (N * ps) size := by
  induction N with
  | zero => simp
  | succ N ih =>
    rw [Finset.sum_range_succ, ih, Nat.succ_mul]
    omega

theorem length_page_iff (h : Paged ps page f) (hps : 0 < ps) {N : Nat} (hN : f.size ≤ N * ps) :
    (∀ p ∈ Finset.range N, (page p).length = min ps (f.size - p * ps)) ↔ f.Full ps := by
  constructor
  · intro hall p hp
    have hpN : p < N := by
      by_contra hge
      have := Nat.mul_le_mul_right ps (Nat.le_of_not_lt hge)
      rw [Nat.succ_mul] at hp
      omega
    have hlen := hall p (Finset.mem_range.mpr hpN)
    rw [Nat.succ_mul] at hp ⊢
    have hfull : (page p).length = ps := by omega
    have hne : page p ≠ [] := List.ne_nil_of_length_pos (by omega)
    have htip := h.tip p hne
    rw [hfull] at htip
    rw [Nat.add_sub_assoc hps]
    exact htip
  · intro hfull p _
    have hle := h.length_le p
    have hwritten : ∀ k, k < ps → (f.byte (p * ps + k)).isSome → k < (page p).length := by
      intro k hk hsome
      obtain ⟨b, hb⟩ := Option.isSome_iff_exists.mp hsome
      have hcontent := h.content _ b hb
      rw [(page_pos hk).1, (page_pos hk).2] at hcontent
      exact (List.getElem?_eq_some_iff.mp hcontent).1
    rcases Nat.lt_trichotomy f.size ((p + 1) * ps) with hlt | heq | hgt
    · -- the file ends in this page or before it
      rw [Nat.succ_mul] at hlt
      by_cases hbefore : f.size ≤ p * ps
      · omega
      · have htip := f.tip.resolve_left (by omega)
        have := hwritten (f.size - 1 - p * ps) (by omega) (by
          rw [Nat.add_sub_of_le (by omega)]
          exact htip)
        omega
    · have hpos : 0 < (p + 1) * ps := Nat.mul_pos (Nat.succ_pos p) hps
      have htip := f.tip.resolve_left (by omega)
      rw [Nat.succ_mul] at heq
      have := hwritten (ps - 1) (by omega) (by
        rw [← Nat.add_sub_assoc hps, ← heq]
        exact htip)
      omega
    · have hboundary := hfull p hgt
      rw [Nat.succ_mul] at hgt hboundary
      have := hwritten (ps - 1) (by omega) (by
        rw [← Nat.add_sub_assoc hps]
        exact hboundary)
      omega

/-- **The pages add up to the file exactly when it is full.** -/
theorem sum_eq_size_iff (h : Paged ps page f) (hps : 0 < ps) {N : Nat} (hN : f.size ≤ N * ps) :
    ∑ p ∈ Finset.range N, (page p).length = f.size ↔ f.Full ps := by
  have hsum : ∑ p ∈ Finset.range N, min ps (f.size - p * ps) = f.size := by
    rw [sum_min, min_eq_right hN]
  rw [← h.length_page_iff hps hN]
  conv_lhs => rhs; rw [← hsum]
  exact Finset.sum_eq_sum_iff_of_le fun p _ => h.length_le p

/-- In a full file every page is as long as the size of the file says. -/
theorem length_page (h : Paged ps page f) (hps : 0 < ps) (hfull : f.Full ps) (p : Nat) :
    (page p).length = min ps (f.size - p * ps) := by
  have hN : f.size ≤ (f.size + p + 1) * ps := by
    have := Nat.mul_le_mul_left (f.size + p + 1) hps
    omega
  exact (h.length_page_iff hps hN).mpr hfull p (Finset.mem_range.mpr (by omega))

end Paged

end IowarpCore
