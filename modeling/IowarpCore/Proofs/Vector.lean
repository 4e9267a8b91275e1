/-
A vector against the list of its elements.

`Holds` says which list a vector stands for: the objects of that list are in front of its
memory.  Each operation has one lemma for both kinds of element types: under its condition it
succeeds and the vector stands for the list that the plain operation gives.  What the two
kinds share is that a gap is opened or closed, by whichever loop; the conditions are where
the code goes wrong without them.
-/
import IowarpCore.Shm.Vector
import IowarpCore.Proofs.BasicString

namespace IowarpCore

namespace Priv

/-! ### What is to happen -/

/-- What an argument refers to. -/
def Arg.at? {T : Type} (l : List T) : Arg T → Option T
  | .value x => some x
  | .own i => l[i]?

def Span.at? {T : Type} (l : List T) : Span T → Option (List T)
  | .values xs => some xs
  | .own first last =>
    if first ≤ last ∧ last ≤ l.length then some ((l.drop first).take (last - first)) else none

/-- The lists of a program by name. -/
abbrev Sequences (T : Type) := Nat → List T

namespace Sequences

variable {T : Type}

def insertAt (l : List T) (idx : Nat) (xs : List T) : Option (List T) :=
  if idx ≤ l.length then some (l.take idx ++ (xs ++ l.drop idx)) else none

def eraseBetween (l : List T) (first last : Nat) : Option (List T) :=
  if first ≤ last ∧ last ≤ l.length then some (l.take first ++ l.drop last) else none

def resizeTo (l : List T) (newSize : Nat) (x : T) : List T :=
  l.take newSize ++ List.replicate (newSize - l.length) x

variable [Inhabited T] (ls : Sequences T)

def construct (i : Nat) : VecInit T → Sequences T
  | .empty => Function.update ls i []
  | .count count => Function.update ls i (List.replicate count default)
  | .list init => Function.update ls i init
  | .copy j => Function.update ls i (ls j)
  | .move j => Function.update (Function.update ls j []) i (ls j)

def assign (i : Nat) : VecAssigned T → Sequences T
  | .copy j => Function.update ls i (ls j)
  | .move j => if j = i then ls else Function.update (Function.update ls i (ls j)) j []
  | .list init => Function.update ls i init

/-- The operation on lists; none where a position is not one of the list. -/
def step : VecOp T → Option (Sequences T)
  | .construct i _ init => some (ls.construct i init)
  | .assign i source => some (ls.assign i source)
  | .pushBack i val => putAt ls i ((val.at? (ls i)).map (ls i ++ [·]))
  | .popBack i => putAt ls i (some (ls i).dropLast)
  | .insert i idx val => putAt ls i ((val.at? (ls i)).bind fun x => insertAt (ls i) idx [x])
  | .insertRange i idx src => putAt ls i ((src.at? (ls i)).bind (insertAt (ls i) idx))
  | .erase i idx => putAt ls i (eraseBetween (ls i) idx (idx + 1))
  | .eraseRange i first last => putAt ls i (eraseBetween (ls i) first last)
  | .resize i newSize => putAt ls i (some (resizeTo (ls i) newSize default))
  | .resizeWith i newSize value => putAt ls i ((value.at? (ls i)).map (resizeTo (ls i) newSize))
  | .reserve _ _ | .shrinkToFit _ => some ls
  | .swap i j => some (Function.update (Function.update ls i (ls j)) j (ls i))
  | .clear i => putAt ls i (some [])

end Sequences

namespace Vector

variable {T : Type} {isPod : Bool} {v v' : Vector T} {l l' xs : List T} {n : Nat} {x : T}
  {val : Arg T} {src : Span T}

/-- The vector holds these elements and no others. -/
structure Holds (v : Vector T) (l : List T) : Prop where
  size : v.size = l.length
  front : ∃ rest, v.data = l.map some ++ rest

/-- The operation goes through, and the vector holds `l` after it. -/
def Becomes (r : Option (Vector T)) (l : List T) : Prop := ∃ v', r = some v' ∧ v'.Holds l

theorem holds_new (alloc : Option Nat) : (new alloc : Vector T).Holds [] := ⟨rfl, [], rfl⟩

theorem Holds.size_le_capacity (h : v.Holds l) : v.size ≤ v.capacity := by
  obtain ⟨rest, hdata⟩ := h.front
  rw [h.size, capacity, hdata, List.length_append, List.length_map]
  exact Nat.le_add_right _ _

theorem Holds.elements (h : v.Holds l) : v.elements = some l := by
  obtain ⟨rest, hdata⟩ := h.front
  rw [Vector.elements, h.size, hdata]
  exact Storage.objects_block [] l rest

theorem Holds.get? (h : v.Holds l) {k : Nat} (hk : k < l.length) : v.get? k = l[k]? := by
  obtain ⟨rest, hdata⟩ := h.front
  rw [Vector.get?, Storage.load, hdata, List.getElem?_append_left (by rwa [List.length_map]),
    List.getElem?_map, List.getElem?_eq_getElem hk]
  rfl

/-- The memory from a position on is that of the elements behind it. -/
theorem map_split (l : List T) (idx : Nat) (rest : Storage T) :
    l.map some ++ rest = (l.take idx).map some ++ ((l.drop idx).map some ++ rest) := by
  rw [← List.append_assoc, ← List.map_append, List.take_append_drop]

theorem length_map_take {idx : Nat} (h : idx ≤ l.length) :
    ((l.take idx).map some).length = idx := by
  rw [List.length_map, List.length_take, Nat.min_eq_left h]

theorem load_front {k : Nat} {rest : Storage T} (h : l[k]? = some x) :
    Storage.load (l.map some ++ rest) k = some x := by
  have hlt := (List.getElem?_eq_some_iff.mp h).1
  rw [Storage.load, List.getElem?_append_left (by rwa [List.length_map]), List.getElem?_map, h]
  rfl

/-! ### Memory -/

/-- There is room for `n` elements, or it can be made. -/
def CanHold (v : Vector T) (n : Nat) : Prop := n ≤ v.capacity ∨ (v.alloc ≠ none ∧ v.Frees)

/-- The vector when it has room for `n` elements, which it may have had before. -/
structure Roomy (v : Vector T) (l : List T) (n : Nat) (v' : Vector T) : Prop where
  holds : v'.Holds l
  room : n ≤ v'.capacity
  same : n ≤ v.capacity → v' = v

theorem Holds.split (h : v.Holds l) (hn : n ≤ v.capacity) :
    ∃ rest, v.data = l.map some ++ rest ∧ n ≤ l.length + rest.length := by
  obtain ⟨rest, hdata⟩ := h.front
  refine ⟨rest, hdata, ?_⟩
  rwa [capacity, hdata, List.length_append, List.length_map] at hn

theorem relocated_eq (h : v.Holds l) (hn : l.length ≤ n) :
    v.relocated isPod n = some (l.map some ++ List.replicate (n - l.length) none) := by
  obtain ⟨rest, hdata⟩ := h.front
  have hnew : (List.replicate n none : Storage T) =
      List.replicate l.length none ++ List.replicate (n - l.length) none := by
    rw [List.replicate_append_replicate, Nat.add_sub_of_le hn]
  unfold relocated
  rw [h.size, hdata, hnew]
  cases isPod with
  | true =>
    have hread := Storage.read_at [] (l.map some) rest
    have hwrite := Storage.write_at [] (List.replicate l.length none)
      (List.replicate (n - l.length) none) (l.map some) (by simp)
    simp only [List.nil_append, List.length_nil, List.length_map] at hread hwrite
    simp only [if_true, hread, Option.bind_eq_bind, Option.bind_some]
    exact hwrite
  | false =>
    obtain ⟨old', hmove⟩ := Storage.moveTo_block [] [] l rest (List.replicate l.length none)
      (List.replicate (n - l.length) none) rfl (by simp)
    simp only [List.nil_append, List.length_nil] at hmove
    simp only [Bool.false_eq_true, if_false, hmove, Option.bind_eq_bind, Option.bind_some]

theorem reserve_spec (isPod : Bool) (h : v.Holds l) (hfree : n ≤ v.capacity ∨ v.alloc = none ∨ v.Frees) :
    ∃ v', v.reserve isPod n = some v' ∧ v'.Holds l ∧ (v.alloc ≠ none → n ≤ v'.capacity) ∧
      (n ≤ v.capacity → v' = v) := by
  unfold reserve
  by_cases hkeep : n ≤ v.capacity ∨ v.alloc = none
  · rw [if_pos hkeep]
    exact ⟨v, rfl, h, fun hsome => hkeep.resolve_right hsome, fun _ => rfl⟩
  · rw [if_neg hkeep]
    obtain ⟨hcap, halloc⟩ := not_or.mp hkeep
    have hle := h.size ▸ h.size_le_capacity
    split
    next hnull =>
      obtain rfl := List.length_eq_zero_iff.mp (Nat.le_zero.mp (hnull ▸ hle))
      exact ⟨_, rfl, ⟨h.size, _, rfl⟩, fun _ => Nat.le_of_eq List.length_replicate.symm,
        fun hle' => absurd hle' hcap⟩
    next =>
      rw [relocated_eq h (by omega), Option.bind_eq_bind, Option.bind_some,
        if_pos ((hfree.resolve_left hcap).resolve_left halloc)]
      refine ⟨_, rfl, ⟨h.size, _, rfl⟩, fun _ => ?_, fun hle' => absurd hle' hcap⟩
      rw [capacity, List.length_append, List.length_map, List.length_replicate]
      omega

theorem reserve_roomy (isPod : Bool) (h : v.Holds l) (hcan : v.CanHold n) :
    ∃ v', v.reserve isPod n = some v' ∧ Roomy v l n v' := by
  obtain ⟨v', hreserve, hholds, hroom, hsame⟩ :=
    reserve_spec isPod h (hcan.imp_right fun hc => .inr hc.2)
  refine ⟨v', hreserve, hholds, ?_, hsame⟩
  obtain hle | hmade := hcan
  · rwa [hsame hle]
  · exact hroom hmade.1

theorem makeRoom_spec (isPod : Bool) (h : v.Holds l) (hcan : v.CanHold n) :
    ∃ v', v.makeRoom isPod n = some v' ∧ Roomy v l n v' := by
  unfold makeRoom
  by_cases hcap : v.capacity < n
  · rw [if_pos hcap]
    have hdoubled : n ≤ Vec.doubled n (if v.capacity = 0 then 1 else v.capacity * 2) n :=
      Vec.le_doubled n (by split <;> omega) (by omega)
    obtain ⟨v', hreserve, hroomy⟩ := reserve_roomy isPod h
      (.inr (hcan.resolve_left (Nat.not_le.mpr hcap)))
    exact ⟨v', hreserve, hroomy.holds, hdoubled.trans hroomy.room,
      fun hle => absurd hle (Nat.not_le.mpr hcap)⟩
  · rw [if_neg hcap]
    exact ⟨v, rfl, h, Nat.le_of_not_lt hcap, fun _ => rfl⟩

theorem shrinkToFit_spec (isPod : Bool) (h : v.Holds l)
    (hfree : v.capacity ≤ v.size ∨ v.alloc = none ∨ v.Frees) :
    Becomes (v.shrinkToFit isPod) l := by
  unfold shrinkToFit
  by_cases hshrink : v.size < v.capacity ∧ v.alloc ≠ none
  · have hfrees := (hfree.resolve_left (Nat.not_le.mpr hshrink.1)).resolve_left hshrink.2
    rw [if_pos hshrink]
    by_cases hzero : v.size = 0
    · obtain rfl := List.length_eq_zero_iff.mp (h.size.symm.trans hzero)
      rw [if_pos hzero, if_pos hfrees]
      exact ⟨_, rfl, h.size, [], rfl⟩
    · rw [if_neg hzero, h.size, relocated_eq h (Nat.le_refl _), Option.bind_eq_bind,
        Option.bind_some, if_pos hfrees]
      exact ⟨_, rfl, rfl, _, rfl⟩
  · rw [if_neg hshrink]
    exact ⟨v, rfl, h⟩

/-! ### Arguments -/

/-- A reference is still good when the vector holds `newSize` elements: nothing was reallocated,
and the element is one of those that stay. -/
def Stays (v : Vector T) (newSize : Nat) (P : Nat → Prop) : Arg T → Prop
  | .value _ => True
  | .own i => newSize ≤ v.capacity ∧ P i

theorem readArg_eq {P : Nat → Prop} {data : Storage T} (hstays : v.Stays n P val)
    (hsame : n ≤ v.capacity → v' = v) (hx : val.at? l = some x)
    (hload : ∀ i, P i → l[i]? = some x → data.load i = some x) :
    readArg v v' data val = some x := by
  cases val with
  | value y => exact hx
  | own i =>
    rw [readArg, hsame hstays.1, if_pos rfl]
    exact hload i hstays.2 hx

/-! ### At the end -/

theorem pushBack_spec (isPod : Bool) (h : v.Holds l) (hcan : v.CanHold (l.length + 1))
    (hx : val.at? l = some x) (hstays : v.Stays (l.length + 1) (fun _ => True) val) :
    ∃ v', v.pushBack isPod val = some v' ∧ v'.Holds (l ++ [x]) ∧
      (l.length + 1 ≤ v.capacity → v'.capacity = v.capacity) := by
  obtain ⟨v', hroom, hroomy⟩ := makeRoom_spec isPod h hcan
  obtain ⟨rest, hdata, hle⟩ := hroomy.holds.split hroomy.room
  obtain ⟨c, rest, rfl⟩ := List.exists_cons_of_length_pos (by omega : 0 < rest.length)
  have hread : readArg v v' v'.data val = some x :=
    readArg_eq hstays hroomy.same hx fun i _ hi => hdata ▸ load_front hi
  have hnew := Storage.construct_at (l.map some) rest c x
  rw [List.length_map, ← hdata, ← hroomy.holds.size] at hnew
  unfold pushBack
  rw [h.size, hroom]
  simp only [Option.bind_eq_bind, Option.bind_some, hread, hnew]
  refine ⟨_, rfl, ⟨?_, rest, ?_⟩, fun hle' => ?_⟩
  · rw [hroomy.holds.size, List.length_append, List.length_singleton]
  · rw [List.map_append, List.append_assoc]
    rfl
  · rw [← hroomy.same hle', capacity, capacity, hdata, List.length_append, List.length_append,
      List.length_cons, List.length_cons]

theorem pushAll_spec (h : v.Holds l) (hroom : l.length + xs.length ≤ v.capacity) :
    Becomes (v.pushAll isPod xs) (l ++ xs) := by
  induction xs generalizing v l with
  | nil => exact ⟨v, rfl, by rwa [List.append_nil]⟩
  | cons x xs ih =>
    rw [List.length_cons] at hroom
    obtain ⟨v', hpush, hholds, hcap⟩ :=
      pushBack_spec isPod h (.inl (by omega)) (rfl : (Arg.value x).at? l = some x) trivial
    obtain ⟨w, hall, hw⟩ := ih hholds (by
      rw [hcap (by omega), List.length_append, List.length_singleton]
      omega)
    rw [List.append_assoc] at hw
    refine ⟨w, ?_, hw⟩
    unfold pushAll at hall ⊢
    rw [List.foldlM_cons, hpush]
    exact hall

/-- What construction and assignment have in common. -/
theorem refill_spec (h : v.Holds []) (hcan : v.CanHold xs.length) :
    Becomes ((v.reserve isPod xs.length).bind fun v => v.pushAll isPod xs) xs := by
  obtain ⟨v', hreserve, hroomy⟩ := reserve_roomy isPod h hcan
  rw [hreserve, Option.bind_some]
  exact pushAll_spec hroomy.holds (by simpa using hroomy.room)

theorem fill_spec (h : v.Holds l) {m : Nat} (hroom : l.length + m ≤ v.capacity)
    (source : Storage T → Nat → Option T)
    (hsource : ∀ cells k, source (l.map some ++ cells) k = some x) :
    ∃ data, v.data.fill v.size m source = some data ∧
      Holds { v with data := data, size := l.length + m } (l ++ List.replicate m x) := by
  obtain ⟨rest, hdata, hle⟩ := h.split hroom
  have hfill := Storage.fill_block (l.map some) (List.replicate m x) (rest.take m) (rest.drop m)
    source (by rw [List.length_take, List.length_replicate]; omega)
    fun k y hy cells => by
      obtain rfl : y = x := List.eq_of_mem_replicate (List.mem_of_getElem? hy)
      exact hsource cells k
  rw [List.take_append_drop, ← hdata, List.length_map, ← h.size, List.length_replicate] at hfill
  refine ⟨_, hfill, ?_, rest.drop m, ?_⟩
  · rw [List.length_append, List.length_replicate]
  · rw [List.map_append, List.append_assoc]

/-- Only the elements before `k` are left. -/
theorem destroyRange_tail (isPod : Bool) (h : v.Holds l) {k : Nat} (hk : k ≤ l.length) :
    ∃ data, v.destroyRange isPod k v.size = some { v with data := data } ∧
      data.length = v.data.length ∧ ∃ rest, data = (l.take k).map some ++ rest := by
  obtain ⟨rest, hdata⟩ := h.front
  cases isPod with
  | true => exact ⟨v.data, rfl, rfl, _, hdata.trans (map_split l k rest)⟩
  | false =>
    have hends := Storage.destroyRange_block ((l.take k).map some) (l.drop k) rest
    rw [← map_split, ← hdata, length_map_take hk, List.length_drop, ← h.size] at hends
    refine ⟨_, ?_, ?_, List.replicate (v.size - k) none ++ rest, rfl⟩
    · rw [destroyRange, if_neg Bool.false_ne_true, hends]
      rfl
    · rw [hdata, map_split l k rest]
      simp only [List.length_append, List.length_replicate, List.length_map, List.length_drop,
        h.size]

theorem popBack_spec (h : v.Holds l) : Becomes (v.popBack isPod) l.dropLast := by
  unfold popBack
  by_cases hpos : 0 < v.size
  · obtain ⟨data, hends, -, rest, hdata⟩ :=
      destroyRange_tail isPod h (k := v.size - 1) (by rw [h.size]; omega)
    rw [if_pos hpos, hends, List.dropLast_eq_take, ← h.size]
    refine ⟨_, rfl, ?_, rest, hdata⟩
    rw [List.length_take, ← h.size, Nat.min_eq_left (Nat.sub_le _ _)]
  · obtain rfl := List.length_eq_zero_iff.mp (h.size ▸ Nat.le_zero.mp (Nat.le_of_not_lt hpos))
    rw [if_neg hpos]
    exact ⟨v, rfl, h⟩

theorem clear_spec (isPod : Bool) (h : v.Holds l) :
    ∃ v', v.clear isPod = some v' ∧ v'.Holds [] ∧ v'.alloc = v.alloc ∧ v'.home = v.home ∧
      v'.capacity = v.capacity := by
  obtain ⟨data, hends, hlen, rest, hdata⟩ :=
    destroyRange_tail isPod h (Nat.zero_le _)
  unfold clear
  rw [hends]
  exact ⟨_, rfl, ⟨rfl, rest, hdata⟩, rfl, rfl, hlen⟩

theorem resizeFrom_spec (h : v.Holds l)
    (hcan : v.size < n → v.CanHold n ∧ v.Stays n (fun _ => True) val) (hx : val.at? l = some x) :
    Becomes (v.resizeFrom isPod n val) (Sequences.resizeTo l n x) := by
  unfold resizeFrom Sequences.resizeTo
  by_cases hmore : v.size < n
  · obtain ⟨hhold, hstays⟩ := hcan hmore
    obtain ⟨v', hroom, hroomy⟩ : ∃ v', (if v.capacity < n then v.reserve isPod n else some v) =
        some v' ∧ Roomy v l n v' := by
      by_cases hcap : v.capacity < n
      · rw [if_pos hcap]
        exact reserve_roomy isPod h hhold
      · rw [if_neg hcap]
        exact ⟨v, rfl, h, Nat.le_of_not_lt hcap, fun _ => rfl⟩
    have hsize : l.length + (n - v'.size) = n := by
      rw [hroomy.holds.size, ← h.size]
      omega
    obtain ⟨data, hfill, hholds⟩ := fill_spec hroomy.holds (m := n - v'.size)
      (hsize.symm ▸ hroomy.room) (fun data _ => readArg v v' data val)
      fun _ _ => readArg_eq hstays hroomy.same hx fun _ _ hi => load_front hi
    rw [hsize] at hholds
    rw [if_pos hmore, hroom, Option.bind_eq_bind, Option.bind_some, hfill,
      List.take_of_length_le (h.size ▸ Nat.le_of_lt hmore), ← hroomy.holds.size]
    exact ⟨_, rfl, hholds⟩
  · rw [if_neg hmore, Nat.sub_eq_zero_of_le (h.size ▸ Nat.le_of_not_lt hmore), List.replicate_zero,
      List.append_nil]
    by_cases hless : n < v.size
    · obtain ⟨data, hends, -, rest, hdata⟩ :=
        destroyRange_tail isPod h (h.size ▸ Nat.le_of_lt hless)
      rw [if_pos hless, hends]
      refine ⟨_, rfl, ?_, rest, hdata⟩
      rw [List.length_take, ← h.size, Nat.min_eq_left (Nat.le_of_lt hless)]
    · rw [if_neg hless, List.take_of_length_le (by rw [← h.size]; omega)]
      exact ⟨v, rfl, h⟩

/-! ### In the middle -/

/-- The gap is there, and what moved memory leaves in it. -/
theorem openGap_spec (isPod : Bool) {idx count : Nat} (h : v.Holds l) (hidx : idx ≤ l.length)
    (hroom : l.length + count ≤ v.capacity)
    (hcount : isPod = true ∨ 0 < count ∨ (idx = l.length ∧ 0 < idx)) :
    ∃ gap tail : Storage T, gap.length = count ∧
      v.openGap isPod idx count =
        some ((l.take idx).map some ++ (gap ++ ((l.drop idx).map some ++ tail))) ∧
      (isPod = true → ∃ behind, gap = ((l.drop idx).map some ++ behind).take count) := by
  obtain ⟨rest, hdata, hle⟩ := h.split hroom
  have hgap : (rest.take count).length = count := by
    rw [List.length_take]
    omega
  have hsplit : v.data = (l.take idx).map some ++
      ((l.drop idx).map some ++ (rest.take count ++ rest.drop count)) := by
    rw [List.take_append_drop, hdata, map_split l idx]
  unfold openGap
  rw [h.size, hsplit]
  cases isPod with
  | true =>
    have hmove := Storage.memmove_up_block ((l.take idx).map some) ((l.drop idx).map some)
      (rest.take count) (rest.drop count)
    rw [length_map_take hidx, hgap, List.length_map, List.length_drop] at hmove
    refine ⟨_, rest.drop count, ?_, hmove, fun _ => ⟨_, rfl⟩⟩
    rw [List.length_take, List.length_append, hgap]
    omega
  | false =>
    rw [if_neg Bool.false_ne_true]
    rcases Nat.eq_zero_or_pos count with rfl | hpos
    · -- Nothing moves: the loop is over at once, as it starts below `idx`.
      obtain ⟨rfl, hpos⟩ := (hcount.resolve_left Bool.false_ne_true).resolve_left (Nat.lt_irrefl 0)
      refine ⟨[], rest, rfl, ?_, fun hpod => absurd hpod Bool.false_ne_true⟩
      have hend : ¬ l.length + 0 ≤ Storage.decr (l.length + 0) := by
        rw [Storage.decr, if_neg (by omega)]
        omega
      rw [Storage.shiftUp, if_neg hend, List.take_append_drop]
      rfl
    · obtain ⟨gap, hlen, hmove⟩ := Storage.shiftUp_block ((l.take idx).map some) (l.drop idx)
        (rest.take count) (rest.drop count) hgap hpos
        (by rw [List.length_drop]; omega : (l.drop idx).length < l.length + 2)
      rw [length_map_take hidx, List.length_drop, Nat.add_sub_of_le hidx] at hmove
      exact ⟨gap, _, hlen, hmove, fun hpod => absurd hpod Bool.false_ne_true⟩

theorem insert_spec {idx : Nat} (h : v.Holds l) (hidx : idx ≤ l.length)
    (hcan : v.CanHold (l.length + 1)) (hx : val.at? l = some x)
    (hstays : v.Stays (l.length + 1) (fun i => i < idx ∨ (isPod = true ∧ i = idx)) val) :
    Becomes (v.insert isPod idx val) (l.take idx ++ ([x] ++ l.drop idx)) := by
  obtain ⟨v', hmake, hroomy⟩ := makeRoom_spec isPod h hcan
  obtain ⟨gap, tail, hlen, hopen, hpod⟩ :=
    openGap_spec isPod hroomy.holds hidx hroomy.room (.inr (.inl Nat.one_pos))
  obtain ⟨c, rfl⟩ := List.length_eq_one_iff.mp hlen
  have hread : readArg v v' ((l.take idx).map some ++ ([c] ++ ((l.drop idx).map some ++ tail))) val =
      some x :=
    readArg_eq hstays hroomy.same hx fun i hplace hi => by
      obtain hbefore | ⟨hmoved, rfl⟩ := hplace
      · exact load_front (by rwa [List.getElem?_take_of_lt hbefore])
      · -- The element at `idx` was copied, and is still there.
        obtain ⟨behind, hgap⟩ := hpod hmoved
        obtain ⟨hlt, rfl⟩ := List.getElem?_eq_some_iff.mp hi
        rw [List.drop_eq_getElem_cons hlt, List.map_cons] at hgap
        obtain rfl := List.singleton_inj.mp hgap
        have hload := Storage.load_at ((l.take i).map some) ((l.drop i).map some ++ tail) l[i]
        rwa [length_map_take hidx] at hload
  have hnew := Storage.construct_at ((l.take idx).map some) ((l.drop idx).map some ++ tail) c x
  rw [length_map_take hidx] at hnew
  unfold insert
  rw [h.size, hmake]
  simp only [Option.bind_eq_bind, Option.bind_some, hopen, hread]
  rw [List.singleton_append, hnew]
  refine ⟨_, rfl, ?_, tail, ?_⟩
  · rw [hroomy.holds.size]
    simp only [List.length_append, List.length_take, List.length_singleton, List.length_drop]
    omega
  · simp only [List.map_append, List.map_cons, List.append_assoc, List.cons_append,
      List.nil_append]

/-- A span is still good: it is empty, or nothing is reallocated and it is in front of `idx`. -/
def SpanStays (v : Vector T) (newSize idx : Nat) : Span T → Prop
  | .values _ => True
  | .own first last => first = last ∨ (newSize ≤ v.capacity ∧ last ≤ idx)

theorem at?_own {first last : Nat} (h : Span.at? l (.own first last) = some xs) :
    first ≤ last ∧ last ≤ l.length ∧ xs = (l.drop first).take (last - first) := by
  obtain ⟨⟨hfirst, hlast⟩, hxs⟩ := Option.ite_none_right_eq_some.mp h
  exact ⟨hfirst, hlast, (Option.some.inj hxs).symm⟩

theorem length_of_at? (h : src.at? l = some xs) : src.length = xs.length := by
  cases src with
  | values ys => rw [Span.length, Option.some.inj h]
  | own first last =>
    obtain ⟨-, hlast, rfl⟩ := at?_own h
    rw [Span.length, List.length_take, List.length_drop]
    omega

theorem spanMemory_eq {idx : Nat} {cells : Storage T} (hidx : idx ≤ l.length)
    (hxs : src.at? l = some xs) (hstays : v.SpanStays n idx src) (hsame : n ≤ v.capacity → v' = v) :
    spanMemory v v' ((l.take idx).map some ++ cells) idx src = some (xs.map some) := by
  cases src with
  | values ys => rw [spanMemory, Option.some.inj hxs]
  | own first last =>
    obtain ⟨hfirst, hlast, rfl⟩ := at?_own hxs
    simp only [spanMemory]
    by_cases hempty : last - first = 0
    · rw [if_pos hempty, hempty]
      rfl
    · obtain ⟨hroom, hbefore⟩ := hstays.resolve_left (by omega)
      have hlen := length_map_take hidx
      rw [if_neg hempty, if_pos ⟨by rw [hsame hroom], .inl hbefore⟩, Storage.read,
        if_pos (by rw [List.length_append]; omega), List.drop_append_of_le_length (by omega),
        List.take_append_of_le_length (by rw [List.length_drop]; omega), ← List.map_drop,
        ← List.map_take, List.drop_take, List.take_take, Nat.min_eq_left (by omega)]

theorem readSpan_eq {idx k : Nat} {cells : Storage T} (hxs : src.at? l = some xs)
    (hstays : v.SpanStays n idx src) (hsame : n ≤ v.capacity → v' = v) (hx : xs[k]? = some x) :
    readSpan v v' src ((l.take idx).map some ++ cells) k = some x := by
  cases src with
  | values ys => rwa [readSpan, Option.some.inj hxs]
  | own first last =>
    obtain ⟨-, -, rfl⟩ := at?_own hxs
    rw [List.getElem?_take, List.getElem?_drop] at hx
    split at hx
    next hk =>
      obtain ⟨hroom, hbefore⟩ := hstays.resolve_left (by omega)
      rw [readSpan, hsame hroom, if_pos rfl]
      exact load_front (by rwa [List.getElem?_take_of_lt (by omega)])
    next => cases hx

theorem insertRange_spec {idx : Nat} (h : v.Holds l) (hidx : idx ≤ l.length)
    (hcan : v.CanHold (l.length + src.length)) (hxs : src.at? l = some xs)
    (hcount : isPod = true ∨ 0 < src.length ∨ (idx = l.length ∧ 0 < idx))
    (hstays : v.SpanStays (l.length + src.length) idx src) :
    Becomes (v.insertRange isPod idx src) (l.take idx ++ (xs ++ l.drop idx)) := by
  obtain ⟨v', hmake, hroomy⟩ := makeRoom_spec isPod h hcan
  obtain ⟨gap, tail, hlen, hopen, -⟩ := openGap_spec isPod hroomy.holds hidx hroomy.room hcount
  rw [length_of_at? hxs] at hlen
  have hfilled : ∃ r, r = some ((l.take idx).map some ++
      (xs.map some ++ ((l.drop idx).map some ++ tail))) ∧
      v.insertRange isPod idx src = r.bind fun data =>
        some { v' with data := data, size := v'.size + src.length } := by
    refine ⟨_, rfl, ?_⟩
    unfold insertRange
    simp only [h.size, hmake, Option.bind_eq_bind, Option.bind_some, hopen]
    cases isPod with
    | true =>
      have hwrite := Storage.write_at ((l.take idx).map some) gap ((l.drop idx).map some ++ tail)
        (xs.map some) (by rw [List.length_map, hlen])
      rw [length_map_take hidx] at hwrite
      simp only [if_true, spanMemory_eq hidx hxs hstays hroomy.same, Option.bind_some, hwrite]
    | false =>
      have hfill := Storage.fill_block ((l.take idx).map some) xs gap
        ((l.drop idx).map some ++ tail) (readSpan v v' src) hlen
        fun k x hx cells => readSpan_eq hxs hstays hroomy.same hx
      rw [length_map_take hidx, ← length_of_at? hxs] at hfill
      simp only [Bool.false_eq_true, if_false, hfill, Option.bind_some]
  obtain ⟨_, rfl, hins⟩ := hfilled
  rw [hins]
  refine ⟨_, rfl, ?_, tail, ?_⟩
  · rw [hroomy.holds.size, length_of_at? hxs]
    simp only [List.length_append, List.length_take, List.length_drop]
    omega
  · simp only [List.map_append, List.append_assoc]

theorem eraseRange_spec {first last : Nat} (h : v.Holds l) (hfirst : first ≤ last)
    (hlast : last ≤ l.length) (hcount : isPod = true ∨ first < last ∨ last = l.length) :
    Becomes (v.eraseRange isPod first last) (l.take first ++ l.drop last) := by
  obtain ⟨rest, hdata⟩ := h.front
  have hpre := length_map_take (hfirst.trans hlast)
  have hgap : ((l.drop first).take (last - first)).length = last - first := by
    rw [List.length_take, List.length_drop]
    omega
  have hsplit : v.data = (l.take first).map some ++ (((l.drop first).take (last - first)).map some ++
      ((l.drop last).map some ++ rest)) := by
    rw [hdata, map_split l first, map_split (l.drop first) (last - first), List.drop_drop,
      Nat.add_sub_of_le hfirst]
  obtain ⟨rest', hclosed⟩ : ∃ rest' : Storage T, v.eraseRange isPod first last =
      some { v with data := (l.take first).map some ++ ((l.drop last).map some ++ rest'),
                    size := v.size - (last - first) } := by
    unfold eraseRange
    cases isPod with
    | true =>
      obtain ⟨gap', -, hmove⟩ := Storage.memmove_down_block ((l.take first).map some)
        (((l.drop first).take (last - first)).map some) ((l.drop last).map some) rest
      rw [← hsplit, hpre, List.length_map, hgap, List.length_map, List.length_drop,
        Nat.add_sub_of_le hfirst, ← h.size] at hmove
      refine ⟨gap' ++ rest, ?_⟩
      simp only [if_true, hmove, Option.bind_eq_bind, Option.bind_some]
    | false =>
      have hends := Storage.destroyRange_block ((l.take first).map some)
        ((l.drop first).take (last - first)) ((l.drop last).map some ++ rest)
      rw [← hsplit, hpre, hgap] at hends
      have hlen : v.size - (last - first) - first = (l.drop last).length := by
        rw [h.size, List.length_drop]
        omega
      simp only [Bool.false_eq_true, if_false, hends, Option.bind_eq_bind, Option.bind_some, hlen]
      rcases Nat.eq_zero_or_pos (last - first) with hzero | hpos
      · obtain rfl := (hcount.resolve_left Bool.false_ne_true).resolve_left (by omega)
        rw [hzero, List.drop_length]
        exact ⟨rest, rfl⟩
      · obtain ⟨gap', -, hmove⟩ := Storage.shiftDown_block ((l.take first).map some)
          (l.drop last) (List.replicate (last - first) none) rest List.length_replicate hpos
        rw [hpre] at hmove
        rw [hmove]
        exact ⟨gap' ++ rest, rfl⟩
  rw [hclosed]
  refine ⟨_, rfl, ?_, rest', ?_⟩
  · rw [h.size]
    simp only [List.length_append, List.length_take, List.length_drop]
    omega
  · rw [List.map_append, List.append_assoc]

/-- One element is a range of one. -/
theorem erase_eq (v : Vector T) (idx : Nat) :
    v.erase isPod idx = v.eraseRange isPod idx (idx + 1) := by
  have hone : ∀ s : Storage T, s.destroyRange idx 1 = s.destroy idx := fun s => bind_pure _
  rw [erase, eraseRange, Nat.add_sub_cancel_left, hone, Nat.sub_sub]

/-! ### Construction and assignment -/

theorem ofCount_spec [Inhabited T] {alloc : Option Nat} (hcan : (new alloc : Vector T).CanHold n) :
    Becomes (ofCount isPod alloc n : Option (Vector T)) (List.replicate n default) := by
  obtain ⟨v', hreserve, hroomy⟩ := reserve_roomy isPod (holds_new alloc) hcan
  obtain ⟨data, hfill, hholds⟩ := fill_spec hroomy.holds (m := n) (by simpa using hroomy.room)
    (fun _ _ => some default) fun _ _ => rfl
  rw [hroomy.holds.size, List.length_nil] at hfill
  rw [List.length_nil, Nat.zero_add] at hholds
  unfold ofCount
  rw [hreserve, Option.bind_eq_bind, Option.bind_some, hfill]
  exact ⟨_, rfl, hholds⟩

theorem ofCopy_spec (h : v.Holds l) (hcan : (new v.alloc : Vector T).CanHold v.size) :
    Becomes (v.ofCopy isPod) l := by
  unfold ofCopy
  dsimp only
  by_cases halloc : (new v.alloc : Vector T).alloc = none
  · have hzero : v.size ≤ 0 := hcan.resolve_right fun hmade => hmade.1 halloc
    obtain rfl := List.length_eq_zero_iff.mp (h.size ▸ Nat.le_zero.mp hzero)
    rw [if_neg (not_not_intro halloc)]
    exact ⟨_, rfl, holds_new _⟩
  · rw [if_pos halloc, h.elements]
    rw [h.size] at hcan ⊢
    exact refill_spec (holds_new _) hcan

/-- What an assignment starts from. -/
theorem clear_canHold (isPod : Bool) (h : v.Holds l) (alloc : Option Nat) :
    ∃ v', v.clear isPod = some v' ∧ v'.alloc = v.alloc ∧ (v.Frees → v'.Frees) ∧
      Holds { v' with alloc := alloc } [] ∧
      ∀ n, { v with alloc := alloc }.CanHold n → { v' with alloc := alloc }.CanHold n := by
  obtain ⟨v', hclear, hholds, halloc, hhome, hcap⟩ := clear_spec isPod h
  refine ⟨v', hclear, halloc, ?_, ⟨hholds.size, hholds.front⟩, ?_⟩
  · rw [Frees, Frees, hcap, hhome, halloc]
    exact id
  · rintro n (hle | ⟨hsome, hfree⟩)
    · exact .inl (hle.trans_eq hcap.symm)
    · exact .inr ⟨hsome, hfree.imp hcap.trans hhome.trans⟩

theorem assignCopy_spec (isPod : Bool) {other : Vector T} (h : v.Holds l') (hother : other.Holds l)
    (hcan : other.size = 0 ∨
      (other.alloc ≠ none ∧ { v with alloc := other.alloc }.CanHold other.size)) :
    Becomes (v.assignCopy isPod other) l := by
  obtain ⟨v', hclear, -, -, hholds, hroom⟩ := clear_canHold isPod h other.alloc
  unfold assignCopy
  rw [hclear, Option.bind_eq_bind, Option.bind_some]
  dsimp only
  by_cases halloc : other.alloc = none
  · have hzero := hcan.resolve_right fun hmade => hmade.1 halloc
    obtain rfl := List.length_eq_zero_iff.mp (hother.size ▸ hzero)
    rw [if_neg (not_not_intro halloc)]
    exact ⟨_, rfl, hholds⟩
  · rw [if_pos halloc, hother.elements]
    rw [hother.size] at hcan ⊢
    refine refill_spec hholds (hcan.elim (fun hzero => .inl ?_) fun hmade => hroom _ hmade.2)
    rw [hzero]
    exact Nat.zero_le _

theorem assignList_spec (isPod : Bool) (h : v.Holds l) (hcan : v.CanHold xs.length) :
    Becomes (v.assignList isPod xs) xs := by
  obtain ⟨v', hclear, halloc, -, hholds, hroom⟩ := clear_canHold isPod h v.alloc
  unfold assignList
  rw [hclear, Option.bind_eq_bind, Option.bind_some]
  have hsame : { v' with alloc := v.alloc } = v' := by rw [← halloc]
  rw [hsame] at hholds hroom
  exact refill_spec hholds (hroom _ hcan)

theorem destruct_spec (h : v.Holds l) (hfree : v.alloc = none ∨ v.Frees) :
    v.destruct isPod = some () := by
  obtain ⟨v', hclear, halloc, hfrees, -⟩ := clear_canHold isPod h v.alloc
  unfold destruct
  rw [hclear, Option.bind_eq_bind, Option.bind_some, halloc, if_pos (hfree.imp_right hfrees)]

end Vector

/-! ### Runs -/

namespace Vectors

variable {T : Type} {isPod : Bool} {vs vs' : Vectors T} {ls ls' : Sequences T} {op : VecOp T}

/-- Each vector holds its list. -/
def Agree (vs : Vectors T) (ls : Sequences T) : Prop := ∀ i, (vs i).Holds (ls i)

/-- A vector without an allocator has no block to free, nor has one without a block. -/
def Destructible (v : Vector T) : Prop := v.alloc = none ∨ v.Frees

/-- The condition on a construction, which ends with the destruction of the old vector. -/
def InitSafe (vs : Vectors T) (i : Nat) (alloc : Option Nat) : VecInit T → Prop
  | .empty => Destructible (vs i)
  | .count count => Destructible (vs i) ∧ (Vector.new alloc : Vector T).CanHold count
  | .list init => Destructible (vs i) ∧ (Vector.new alloc : Vector T).CanHold init.length
  | .copy j => Destructible (vs i) ∧ (Vector.new (vs j).alloc : Vector T).CanHold (vs j).size
  | .move j => j = i ∨ Destructible (vs i)

/-- The condition on an assignment. -/
def AssignSafe (vs : Vectors T) (i : Nat) : VecAssigned T → Prop
  | .copy j => j = i ∨ (vs j).size = 0 ∨
      ((vs j).alloc ≠ none ∧ { vs i with alloc := (vs j).alloc }.CanHold (vs j).size)
  | .move j => j = i ∨ Destructible (vs i)
  | .list init => (vs i).CanHold init.length

/-- **The condition on an operation**: memory can be had, and the old block goes back to the
allocator it is from; what is referred to stays where it is; and ranges of objects that are not
copied as memory are not empty, but at the end. -/
def Safe (isPod : Bool) (vs : Vectors T) : VecOp T → Prop
  | .construct i alloc init => InitSafe vs i alloc init
  | .assign i source => AssignSafe vs i source
  | .pushBack i val => (vs i).CanHold ((vs i).size + 1) ∧
      (vs i).Stays ((vs i).size + 1) (fun _ => True) val
  | .insert i idx val => (vs i).CanHold ((vs i).size + 1) ∧
      (vs i).Stays ((vs i).size + 1) (fun k => k < idx ∨ (isPod = true ∧ k = idx)) val
  | .insertRange i idx src => (vs i).CanHold ((vs i).size + src.length) ∧
      (isPod = true ∨ 0 < src.length ∨ (idx = (vs i).size ∧ 0 < idx)) ∧
      (vs i).SpanStays ((vs i).size + src.length) idx src
  | .eraseRange i first last => isPod = true ∨ first < last ∨ last = (vs i).size
  | .resize i newSize => (vs i).size < newSize → (vs i).CanHold newSize
  | .resizeWith i newSize value => (vs i).size < newSize →
      (vs i).CanHold newSize ∧ (vs i).Stays newSize (fun _ => True) value
  | .reserve i newCapacity => newCapacity ≤ (vs i).capacity ∨ Destructible (vs i)
  | .shrinkToFit i => (vs i).capacity ≤ (vs i).size ∨ Destructible (vs i)
  | .popBack _ | .erase _ _ | .swap _ _ | .clear _ => True

theorem Agree.update (h : Agree vs ls) {v : Vector T} {l : List T} (hv : v.Holds l) (i : Nat) :
    Agree (Function.update vs i v) (Function.update ls i l) := by
  intro k
  by_cases hk : k = i
  · subst hk
    rwa [Function.update_self, Function.update_self]
  · rw [Function.update_of_ne hk, Function.update_of_ne hk]
    exact h k

/-- An operation on one vector. -/
theorem Agree.putAt (h : Agree vs ls) {i : Nat} {r : Option (Vector T)} {r' : Option (List T)}
    (hplain : Priv.putAt ls i r' = some ls') (hop : ∀ l, r' = some l → Vector.Becomes r l) :
    ∃ vs', Priv.putAt vs i r = some vs' ∧ Agree vs' ls' := by
  obtain ⟨l, hl, rfl⟩ := Option.map_eq_some_iff.mp hplain
  obtain ⟨v, rfl, hv⟩ := hop l hl
  exact ⟨_, rfl, h.update hv i⟩

theorem Agree.assign (h : Agree vs ls) {i : Nat} {source : VecAssigned T}
    (hsafe : AssignSafe vs i source) :
    ∃ vs', vs.assign isPod i source = some vs' ∧ Agree vs' (ls.assign i source) := by
  cases source with
  | copy j =>
    rw [Vectors.assign, Sequences.assign]
    by_cases hj : j = i
    · rw [if_pos hj, hj, Function.update_eq_self]
      exact ⟨vs, rfl, h⟩
    · rw [if_neg hj]
      obtain ⟨v, hcopy, hv⟩ := Vector.assignCopy_spec isPod (h i) (h j)
        (hsafe.resolve_left hj)
      exact ⟨_, by rw [hcopy]; rfl, h.update hv i⟩
  | move j =>
    rw [Vectors.assign, Sequences.assign]
    by_cases hj : j = i
    · rw [if_pos hj, if_pos hj]
      exact ⟨vs, rfl, h⟩
    · rw [if_neg hj, if_neg hj, Vector.assignMove,
        Vector.destruct_spec (h i) (hsafe.resolve_left hj)]
      exact ⟨_, rfl, (h.update (h j) i).update (Vector.holds_new none) j⟩
  | list init =>
    obtain ⟨v, hlist, hv⟩ := Vector.assignList_spec isPod (h i) hsafe
    exact ⟨_, by rw [Vectors.assign, hlist]; rfl, h.update hv i⟩

variable [Inhabited T]

theorem Agree.construct (h : Agree vs ls) {i : Nat} {alloc : Option Nat} {init : VecInit T}
    (hsafe : InitSafe vs i alloc init) :
    ∃ vs', vs.step isPod (.construct i alloc init) = some vs' ∧
      Agree vs' (ls.construct i init) := by
  have hmade : ∀ {r : Option (Vector T)} {l : List T}, Destructible (vs i) →
      Vector.Becomes r l → ∃ vs', ((r.map (·, vs)).bind fun p =>
        ((p.2 i).destruct isPod).bind fun _ => some (Function.update p.2 i p.1)) = some vs' ∧
        Agree vs' (Function.update ls i l) := by
    rintro r l hfree ⟨v, rfl, hv⟩
    refine ⟨_, ?_, h.update hv i⟩
    simp only [Option.map_some, Option.bind_some, Vector.destruct_spec (h i) hfree]
  cases init with
  | empty => exact hmade (r := some (.new alloc)) hsafe ⟨_, rfl, Vector.holds_new alloc⟩
  | count count => exact hmade hsafe.1 (Vector.ofCount_spec hsafe.2)
  | list init => exact hmade hsafe.1 (Vector.refill_spec (Vector.holds_new alloc) hsafe.2)
  | copy j => exact hmade hsafe.1 (Vector.ofCopy_spec (h j) hsafe.2)
  | move j =>
    have hleft : Agree (Function.update vs j .moved) (Function.update ls j []) :=
      h.update (Vector.holds_new none) j
    have hfree : Destructible (Function.update vs j .moved i) := by
      by_cases hj : i = j
      · subst hj
        rw [Function.update_self]
        exact .inl rfl
      · rw [Function.update_of_ne hj]
        exact hsafe.resolve_left (Ne.symm hj)
    refine ⟨_, ?_, hleft.update (h j) i⟩
    rw [Vectors.step, Vectors.construct, Option.bind_eq_bind, Option.bind_some]
    dsimp only
    rw [Vector.destruct_spec (hleft i) hfree]
    rfl

/-- **One operation does what it does to lists.** -/
theorem Agree.step (h : Agree vs ls) (hsafe : Safe isPod vs op) (hplain : ls.step op = some ls') :
    ∃ vs', vs.step isPod op = some vs' ∧ Agree vs' ls' := by
  cases op with
  | construct i alloc init =>
    obtain rfl := Option.some.inj hplain
    exact h.construct hsafe
  | assign i source =>
    obtain rfl := Option.some.inj hplain
    exact h.assign hsafe
  | pushBack i val =>
    refine h.putAt hplain fun l hl => ?_
    obtain ⟨x, hx, rfl⟩ := Option.map_eq_some_iff.mp hl
    rw [Safe, (h i).size] at hsafe
    obtain ⟨v, hpush, hv, -⟩ := Vector.pushBack_spec isPod (h i) hsafe.1 hx hsafe.2
    exact ⟨v, hpush, hv⟩
  | popBack i =>
    refine h.putAt hplain fun l hl => ?_
    obtain rfl := Option.some.inj hl
    exact Vector.popBack_spec (h i)
  | insert i idx val =>
    refine h.putAt hplain fun l hl => ?_
    obtain ⟨x, hx, hl⟩ := Option.bind_eq_some_iff.mp hl
    obtain ⟨hidx, hl⟩ := Option.ite_none_right_eq_some.mp hl
    obtain rfl := Option.some.inj hl
    rw [Safe, (h i).size] at hsafe
    exact Vector.insert_spec (h i) hidx hsafe.1 hx hsafe.2
  | insertRange i idx src =>
    refine h.putAt hplain fun l hl => ?_
    obtain ⟨xs, hxs, hl⟩ := Option.bind_eq_some_iff.mp hl
    obtain ⟨hidx, hl⟩ := Option.ite_none_right_eq_some.mp hl
    obtain rfl := Option.some.inj hl
    rw [Safe, (h i).size] at hsafe
    exact Vector.insertRange_spec (h i) hidx hsafe.1 hxs hsafe.2.1 hsafe.2.2
  | erase i idx =>
    refine h.putAt hplain fun l hl => ?_
    obtain ⟨⟨hfirst, hlast⟩, hl⟩ := Option.ite_none_right_eq_some.mp hl
    obtain rfl := Option.some.inj hl
    rw [Vector.erase_eq]
    exact Vector.eraseRange_spec (h i) hfirst hlast (.inr (.inl (Nat.lt_succ_self idx)))
  | eraseRange i first last =>
    refine h.putAt hplain fun l hl => ?_
    obtain ⟨⟨hfirst, hlast⟩, hl⟩ := Option.ite_none_right_eq_some.mp hl
    obtain rfl := Option.some.inj hl
    rw [Safe, (h i).size] at hsafe
    exact Vector.eraseRange_spec (h i) hfirst hlast hsafe
  | resize i newSize =>
    refine h.putAt hplain fun l hl => ?_
    obtain rfl := Option.some.inj hl
    exact Vector.resizeFrom_spec (h i) (fun hmore => ⟨hsafe hmore, trivial⟩) rfl
  | resizeWith i newSize value =>
    refine h.putAt hplain fun l hl => ?_
    obtain ⟨x, hx, rfl⟩ := Option.map_eq_some_iff.mp hl
    exact Vector.resizeFrom_spec (h i) hsafe hx
  | reserve i newCapacity =>
    obtain rfl := Option.some.inj hplain
    obtain ⟨v, hreserve, hv, -⟩ := Vector.reserve_spec isPod (h i) hsafe
    have hkept := h.update hv i
    rw [Function.update_eq_self] at hkept
    exact ⟨_, by rw [Vectors.step, hreserve]; rfl, hkept⟩
  | shrinkToFit i =>
    obtain rfl := Option.some.inj hplain
    obtain ⟨v, hshrink, hv⟩ := Vector.shrinkToFit_spec isPod (h i) hsafe
    have hkept := h.update hv i
    rw [Function.update_eq_self] at hkept
    exact ⟨_, by rw [Vectors.step, hshrink]; rfl, hkept⟩
  | swap i j =>
    obtain rfl := Option.some.inj hplain
    have hi : ((vs i).swap (vs j)).1.Holds (ls j) := ⟨(h j).size, (h j).front⟩
    have hj : ((vs i).swap (vs j)).2.Holds (ls i) := ⟨(h i).size, (h i).front⟩
    exact ⟨_, rfl, (h.update hi i).update hj j⟩
  | clear i =>
    refine h.putAt hplain fun l hl => ?_
    obtain rfl := Option.some.inj hl
    obtain ⟨v, hclear, hv, -⟩ := Vector.clear_spec isPod (h i)
    exact ⟨v, hclear, hv⟩

/-- What is seen of a vector is what is seen of the list. -/
structure Mirrors (v : Vector T) (l : List T) : Prop where
  size : v.size = l.length
  elements : v.elements = some l
  index : ∀ k < l.length, v.get? k = l[k]?
  capacity : v.size ≤ v.capacity

/-- No vector has an allocator yet. -/
def start : Vectors T := fun _ => .moved

def run (isPod : Bool) (ops : List (VecOp T)) (vs : Vectors T) : Option (Vectors T) :=
  ops.foldlM (Vectors.step isPod) vs

/-- The condition holds at every operation. -/
def GoodRun (isPod : Bool) : List (VecOp T) → Vectors T → Prop
  | [], _ => True
  | op :: ops, vs => Safe isPod vs op ∧ ∀ vs', vs.step isPod op = some vs' → GoodRun isPod ops vs'

/-- The operations on the lists. -/
def plain (ops : List (VecOp T)) (ls : Sequences T) : Option (Sequences T) :=
  ops.foldlM Sequences.step ls

theorem Agree.run {ops : List (VecOp T)} (h : Agree vs ls) (hgood : GoodRun isPod ops vs)
    (hplain : plain ops ls = some ls') : ∃ vs', run isPod ops vs = some vs' ∧ Agree vs' ls' := by
  induction ops generalizing vs ls with
  | nil =>
    obtain rfl := Option.some.inj hplain
    exact ⟨vs, rfl, h⟩
  | cons op ops ih =>
    obtain ⟨ls₁, hfirst, hrest⟩ := Option.bind_eq_some_iff.mp hplain
    obtain ⟨vs₁, hstep, hagree⟩ := h.step hgood.1 hfirst
    obtain ⟨vs', hrun, hagree'⟩ := ih hagree (hgood.2 vs₁ hstep) hrest
    refine ⟨vs', ?_, hagree'⟩
    rw [Vectors.run, List.foldlM_cons, hstep]
    exact hrun

theorem GoodRun.take {done later : List (VecOp T)} (h : GoodRun isPod (done ++ later) vs) :
    GoodRun isPod done vs := by
  induction done generalizing vs with
  | nil => trivial
  | cons op done ih => exact ⟨h.1, fun vs' hstep => ih (h.2 vs' hstep)⟩

/--
**Vectors mirror the lists.**  In a run whose operations all meet the condition each operation
goes through, for element types of both kinds, and after each of them every vector shows its
list.
-/
theorem vectors_mirror {done later : List (VecOp T)}
    (hplain : plain (done ++ later) (fun _ => []) = some ls')
    (hgood : GoodRun isPod (done ++ later) start) :
    ∃ vs ls, run isPod done start = some vs ∧ plain done (fun _ => []) = some ls ∧
      ∀ i, Mirrors (vs i) (ls i) := by
  rw [plain, List.foldlM_append] at hplain
  obtain ⟨ls, hdone, -⟩ := Option.bind_eq_some_iff.mp hplain
  have hstart : Agree start fun _ => ([] : List T) := fun _ => Vector.holds_new none
  obtain ⟨vs, hrun, hagree⟩ := hstart.run hgood.take hdone
  exact ⟨vs, ls, hrun, hdone, fun i => ⟨(hagree i).size, (hagree i).elements,
    fun _ hk => (hagree i).get? hk, (hagree i).size_le_capacity⟩⟩

theorem GoodRun.cons {ops : List (VecOp T)} (hsafe : Safe isPod vs op)
    (hstep : vs.step isPod op = some vs') (hrest : GoodRun isPod ops vs') :
    GoodRun isPod (op :: ops) vs := by
  refine ⟨hsafe, fun vs'' hstep' => ?_⟩
  obtain rfl := Option.some.inj (hstep.symm.trans hstep')
  exact hrest

/-- An insertion that grows, at the front, and an erasure. -/
theorem vectors_mirror_insert :
    ∃ vs, run false [.construct 0 (some 1) (.list [1, 2]), .insert 0 0 (.value 7),
      .eraseRange 0 1 2] start = some vs ∧ Mirrors (vs 0) [7, 2] := by
  have hgood : GoodRun false ([.construct 0 (some 1) (.list [1, 2]), .insert 0 0 (.value 7),
      .eraseRange 0 1 2] ++ []) start :=
    .cons ⟨.inl rfl, .inr ⟨by decide, .inl rfl⟩⟩ rfl
      (.cons ⟨.inr ⟨by decide, .inr rfl⟩, trivial⟩ rfl (.cons (.inr (.inl (by decide))) rfl trivial))
  obtain ⟨vs, ls, hrun, hplain, hmirrors⟩ := vectors_mirror rfl hgood
  obtain rfl := Option.some.inj hplain
  exact ⟨vs, hrun, hmirrors 0⟩

/-- An empty range is inserted at the front of an empty vector, by a loop that starts below zero.
An empty range is erased, and the elements behind it with it.  The element that is pushed was in
the memory that the push frees, or there is no allocator any more. -/
theorem vectors_differ :
    (¬ ∀ (isPod : Bool) (ops : List (VecOp Nat)) (ls : Sequences Nat),
      plain ops (fun _ => []) = some ls →
        ∃ vs, run isPod ops start = some vs ∧ ∀ i, Mirrors (vs i) (ls i)) ∧
    ((run false [.construct 0 (some 1) (.list [1, 2]), .eraseRange 0 1 1] start).bind
      fun vs => (vs 0).elements) = none ∧
    (run true [.construct 0 (some 1) (.list [1]), .pushBack 0 (.own 0)] start).isNone = true ∧
    (run true [.construct 0 (some 1) (.list [1]), .construct 1 none (.move 0),
      .pushBack 0 (.value 2)] start).isNone = true := by
  refine ⟨fun hclaim => ?_, rfl, rfl, rfl⟩
  obtain ⟨vs, hrun, -⟩ :=
    hclaim false [.construct 0 (some 1) .empty, .insertRange 0 0 (.values [])] _ rfl
  have hnone : (run false [.construct 0 (some 1) .empty, .insertRange 0 0 (.values [])]
      (start : Vectors Nat)).isNone = true := rfl
  rw [hrun] at hnone
  cases hnone

end Vectors

end Priv

end IowarpCore
