/-
Programs over strings against programs over lists of characters.

The lists are the specification: each call has its plain meaning there.  `Allowed` is
the condition on a call in the state before it, `Fresh` is what `operator new` promises.
A pool of strings in which no two share a vector agrees with the lists, one call that
meets its condition keeps that, and so does a run of such calls; and what can be seen of
a string that agrees with its list is what the list shows.
-/
import IowarpCore.Proofs.StringQueries

namespace IowarpCore

namespace Priv

open BasicString

/-! ### The plain lists -/

/-- The text of a `const T *` argument; a null pointer is the empty text. -/
def textOf (s : Option Bytes) : Bytes := (s.map cStr).getD []

abbrev Lists := Nat → Bytes

namespace Lists

/-- What a string is constructed from, as a list. -/
def initText (vals : Lists) : Init → Option Bytes
  | .empty => some []
  | .cStr s => some (textOf s)
  | .count count c => some (List.replicate count c)
  | .init s => some s
  | .stdString s => some s
  | .substr j pos count => if (vals j).length < pos then none else some (part (vals j) pos count)
  | .copy j => some (vals j)
  | .move j => some (vals j)

def assign (vals : Lists) (i : Nat) : Assigned → Lists
  | .copy j => Function.update vals i (vals j)
  | .move j => if j = i then vals else Function.update (Function.update vals i (vals j)) j []
  | .cStr s => Function.update vals i (textOf s)
  | .init s => Function.update vals i s
  | .stdString s => Function.update vals i s

/-- What is appended, as a list. -/
def appendText (vals : Lists) : Appended → Option Bytes
  | .str j => some (vals j)
  | .substr j pos count => if (vals j).length < pos then none else some (part (vals j) pos count)
  | .cStr s => some (textOf s)
  | .chars s => some s
  | .count count c => some (List.replicate count c)
  | .init s => some s

/-- One call on plain lists; `none` when it throws. -/
def step (vals : Lists) : Op → Option Lists
  | .construct i _ (.move j) => some (Function.update (Function.update vals j []) i (vals j))
  | .construct i _ init => (vals.initText init).map (Function.update vals i)
  | .assign i from_ => some (vals.assign i from_)
  | .append i what => (vals.appendText what).map fun t => Function.update vals i (vals i ++ t)
  | .pushBack i c => some (Function.update vals i (vals i ++ [c]))
  | .popBack i => some (Function.update vals i (vals i).dropLast)
  | .resize i count => some (Function.update vals i (resized (vals i) count))
  | .reserve _ _ => some vals
  | .shrinkToFit _ => some vals
  | .clear i => some (Function.update vals i [])
  | .replace i pos count j =>
    if (vals i).length < pos then none
    else some (Function.update vals i (replaced (vals i) pos count (vals j)))
  | .replaceCStr i pos count (some s) =>
    if (vals i).length < pos then none
    else some (Function.update vals i (replaced (vals i) pos count (cStr s)))
  -- a null pointer erases
  | .replaceCStr i pos count none =>
    if (vals i).length < pos then none
    else some (Function.update vals i (erased (vals i) pos count))
  | .erase i pos count =>
    if (vals i).length < pos then none
    else some (Function.update vals i (erased (vals i) pos count))
  | .swap i j => some (Function.update (Function.update vals i (vals j)) j (vals i))

def run (calls : List (Addrs × Op)) (vals : Lists) : Lists :=
  calls.foldl (fun vals call => (vals.step call.2).getD vals) vals

end Lists

/-! ### The condition on a call -/

namespace Strings

variable (n : Nat) (st : Strings)

/-- The condition on a construction. -/
def InitAllowed (alloc : Option Nat) : Init → Prop
  | .empty => True
  | .cStr s => HasMemory n alloc (textOf s).length
  | .count count _ => HasMemory n alloc count
  | .init s => HasMemory n alloc s.length
  | .stdString s => HasMemory n alloc s.length
  | .substr j pos count => HasMemory n alloc (partLength (st.vars j).size pos count)
  | .copy j => HasMemory n (st.vars j).alloc (st.vars j).size
  | .move _ => True

def AssignAllowed (i : Nat) : Assigned → Prop
  | .copy j => j = i ∨ HasMemory n (st.vars j).alloc (st.vars j).size
  | .move _ => True
  | .cStr s => HasMemory n (st.vars i).alloc (textOf s).length
  | .init s => HasMemory n (st.vars i).alloc s.length
  | .stdString s => HasMemory n (st.vars i).alloc s.length

/-- The condition on an append of `len` characters of variable `j`. -/
def StrAllowed (i j len : Nat) : Prop :=
  CanAppend n st.heap (st.vars i) len ∧ (j = i → NoRealloc st.heap (st.vars i) len)

def AppendAllowed (i : Nat) : Appended → Prop
  | .str j => st.StrAllowed n i j (st.vars j).size
  | .substr j pos count => st.StrAllowed n i j (partLength (st.vars j).size pos count)
  | .cStr s => CanAppend n st.heap (st.vars i) (textOf s).length
  | .chars s => CanAppend n st.heap (st.vars i) s.length
  | .count count _ => CanPush n st.heap (st.vars i) count
  | .init s => CanPush n st.heap (st.vars i) s.length

/-- The call does not reach one of the defects: a string that leaves its buffer is empty,
a vector that grows has the string's length and an allocator, a string appended to itself
does not reallocate and one replaced by itself does not overlap, and strings that are
swapped are both inline or both on the heap. -/
def Allowed : Op → Prop
  | .construct _ alloc init => st.InitAllowed n alloc init
  | .assign i from_ => st.AssignAllowed n i from_
  | .append i what => st.AppendAllowed n i what
  | .pushBack i _ => CanPush n st.heap (st.vars i) 1
  | .popBack _ => True
  | .resize i count => CanAppend n st.heap (st.vars i) (count - (st.vars i).size)
  | .reserve i newCapacity => CanReserve n (st.vars i) newCapacity
  | .shrinkToFit _ => True
  | .clear _ => True
  | .replace i pos count j =>
    CanReplace n (st.vars i) pos count (st.vars j).size (j = i → (st.vars i).size ≤ pos)
  | .replaceCStr _ _ _ none => True
  | .replaceCStr i pos count (some s) =>
    HasMemory n (st.vars i).alloc (cStr s).length ∧
      CanReplace n (st.vars i) pos count (cStr s).length True
  | .erase _ _ _ => True
  | .swap i j => (st.vars i).usingSso = (st.vars j).usingSso

end Strings

/-- The variable a call changes. -/
def Op.target : Op → Nat
  | .construct i _ _ => i
  | .assign i _ => i
  | .append i _ => i
  | .pushBack i _ => i
  | .popBack i => i
  | .resize i _ => i
  | .reserve i _ => i
  | .shrinkToFit i => i
  | .clear i => i
  | .replace i _ _ _ => i
  | .replaceCStr i _ _ _ => i
  | .erase i _ _ => i
  | .swap i _ => i

def Op.isConstruct : Op → Bool
  | .construct _ _ _ => true
  | _ => false

/-- What `operator new` promises: no live vector has the address. -/
structure Fresh (st : Strings) (a : Addrs) (op : Op) : Prop where
  first : FreeFor st.heap (st.vars op.target) a.first
  second : FreeFor st.heap (st.vars op.target) a.second
  temp : st.heap a.temp = none
  apart : a.first ≠ a.temp ∧ a.second ≠ a.temp
  /-- A new object is made before the one whose name it gets is destroyed. -/
  construct : op.isConstruct = true → st.heap a.first = none

/-! ### One call -/

/-- Every string stands for its list, and no two strings share a vector. -/
abbrev Agree (n : Nat) (st : Strings) (vals : Lists) : Prop :=
  (owner n).Pool st.heap st.vars vals

namespace Agree

variable {n : Nat} {st : Strings} {vals : Lists} {i j : Nat} {l : Bytes}

theorem start (n : Nat) : Agree n (Strings.start n) fun _ => [] where
  stands _ := Repr.empty (blank_room n _) rfl rfl
  apart _ _ x hx := absurd hx (not_owns_of_inline rfl x)

/-- The call goes through, and the strings agree with `vals'` after it. -/
def To (n : Nat) (r : Strings.Result) (vals' : Lists) : Prop :=
  ∃ st', r = some (.ok st') ∧ Agree n st' vals'

variable {r : Outcome} {a : Addrs} {p : UInt64}

theorem put (hagree : Agree n st vals) (hr : Becomes n st.heap (st.vars i) r l) :
    To n (st.put i r) (Function.update vals i l) := by
  obtain ⟨h', s', rfl, hrepr, hframe⟩ := hr
  exact ⟨_, rfl, hagree.step hrepr hframe⟩

theorem putChecked (hagree : Agree n st vals) (hr : Becomes n st.heap (st.vars i) r l) :
    To n (st.putChecked i (r.map .ok)) (Function.update vals i l) := by
  obtain ⟨h', s', rfl, hrepr, hframe⟩ := hr
  exact ⟨_, rfl, hagree.step hrepr hframe⟩

/-- A new object takes the name of the one that is destroyed. -/
theorem rebind (hagree : Agree n st vals) {alloc : Option Nat}
    (hr : Becomes n st.heap (blank n alloc) r l) :
    To n (st.rebind i r) (Function.update vals i l) := by
  obtain ⟨h', s', rfl, hrepr, hmake⟩ := hr
  have hnone : ∀ x, ¬ Owns (blank n alloc) x := not_owns_of_inline rfl
  have hold : Repr n h' (st.vars i) (vals i) :=
    hmake.stands_beside (hagree.stands i) fun x _ hx => hnone x hx
  have hdrop : (owner n).Frame h' (st.vars i) (freed h' (st.vars i))
      { st.vars i with size := 0, usingSso := true } := frame_release rfl
  obtain ⟨hframe, hrepr'⟩ := CellOwner.Frame.replace hnone (hagree.stands i) hrepr hmake hdrop
  refine ⟨⟨freed h' (st.vars i), Function.update st.vars i s'⟩, ?_, hagree.step hrepr' hframe⟩
  simp only [Strings.rebind, Option.bind_eq_bind, Option.bind_some, release_eq hold]

/-! ### Construction and assignment -/

theorem length_part (l : Bytes) (pos count : Nat) :
    (part l pos count).length = partLength l.length pos count := by
  have hle := partLength_le l.length pos count
  rw [← take_partLength, List.length_take, List.length_drop, Nat.min_eq_left hle]

/-- A move leaves the vector with its new owner; the variable moved to has lost its own. -/
theorem moveTo (hn : 0 < n) (hagree : Agree n st vals) (hji : j ≠ i) (base : BasicString)
    (hbase : base.storage.length = max n 8) :
    ∃ t o, base.take n (st.vars j) = some (t, o) ∧ o.usingSso = true ∧
      Agree n ⟨freed st.heap (st.vars i), Function.update (Function.update st.vars i t) j o⟩
        (Function.update (Function.update vals i (vals j)) j []) := by
  -- first the variable moved to loses its vector
  have hempty : Repr n (freed st.heap (st.vars i))
      { st.vars i with size := 0, usingSso := true } [] :=
    Repr.empty (hagree.stands i).room rfl rfl
  have hfreed := hagree.step hempty (frame_release rfl)
  have hj := hfreed.stands j
  rw [Function.update_of_ne hji, Function.update_of_ne hji] at hj
  obtain ⟨t, o, htake, ht, ho, hsso, howns⟩ := take_eq hn hbase hj
  refine ⟨t, o, htake, hsso, ?_⟩
  have hpool := hfreed.exchange (i := i) (j := j) ht ho ?_ ?_ ?_
  · rwa [Function.update_idem, Function.update_idem] at hpool
  · intro x hx
    rw [Function.update_of_ne hji]
    exact .inr (howns x hx)
  · intro x hx
    exact absurd hx (not_owns_of_inline hsso x)
  · intro x _
    exact not_owns_of_inline hsso x

theorem construct (hn : 0 < n) (hagree : Agree n st vals) {alloc : Option Nat}
    {init : Init} (hfresh : Fresh st a (.construct i alloc init))
    (hallowed : st.InitAllowed n alloc init) :
    match Lists.step vals (.construct i alloc init) with
    | some vals' => To n (st.construct n a i alloc init) vals'
    | none => ∃ e, st.construct n a i alloc init = some (.error e) := by
  have hp := hfresh.construct rfl
  have hroom := blank_room n alloc
  cases init with
  | empty => exact hagree.rebind (ofAlloc_becomes hn st.heap alloc)
  | cStr s =>
    cases s with
    | none => exact hagree.rebind (ofAlloc_becomes hn st.heap alloc)
    | some s => exact hagree.rebind (fill_becomes hroom rfl hp hallowed)
  | count count c =>
    have hmem : HasMemory n alloc (List.replicate count c).length := by
      rw [List.length_replicate]
      exact hallowed
    exact hagree.rebind (fill_becomes hroom rfl hp hmem)
  | init s => exact hagree.rebind (fill_becomes hroom rfl hp hallowed)
  | stdString s => exact hagree.rebind (fill_becomes hroom rfl hp hallowed)
  | substr j pos count =>
    have hsize := (hagree.stands j).size
    by_cases hpos : (vals j).length < pos
    · simp only [Lists.step, Lists.initText, if_pos hpos, Option.map_none]
      refine ⟨"Substring position out of range", ?_⟩
      simp only [Strings.construct, ofSubstr, hsize, if_pos hpos, Option.bind_eq_bind,
        Option.bind_some]
    · simp only [Lists.step, Lists.initText, if_neg hpos, Option.map_some]
      have hle : pos ≤ (st.vars j).size := by omega
      have hmem : HasMemory n alloc (part (vals j) pos count).length := by
        rw [length_part, ← hsize]
        exact hallowed
      obtain ⟨h', s', hfill, hbecomes⟩ := fill_becomes hroom rfl hp hmem
      have hto := hagree.rebind (i := i) (r := some (h', s')) ⟨h', s', rfl, hbecomes⟩
      simp only [Strings.construct, ofSubstr_eq (hagree.stands j) hle, hfill, Option.map_some,
        Option.bind_eq_bind, Option.bind_some]
      exact hto
  | copy j =>
    refine hagree.rebind (ofCopy_becomes (hagree.stands j) hp ?_)
    rw [← (hagree.stands j).size]
    exact hallowed
  | move j =>
    simp only [Lists.step]
    by_cases hji : j = i
    · subst hji
      -- the old object is the one moved from
      obtain ⟨t, o, htake, ht, -, hsso, howns⟩ := take_eq hn (blank_room n none) (hagree.stands j)
      have hpool := hagree.step ht (CellOwner.Frame.of_owns howns)
      refine ⟨⟨st.heap, Function.update st.vars j t⟩, ?_, ?_⟩
      · simp only [Strings.construct, Strings.rebind, htake, Function.update_self, release, hsso,
          if_true, Option.bind_eq_bind, Option.bind_some, Function.update_idem]
      · rw [Function.update_idem]
        exact hpool
    · obtain ⟨t, o, htake, hsso, hpool⟩ := hagree.moveTo hn hji _ (blank_room n none)
      rw [Function.update_comm (Ne.symm hji), Function.update_comm (Ne.symm hji)] at hpool
      refine ⟨_, ?_, hpool⟩
      simp only [Strings.construct, Strings.rebind, htake, Option.bind_eq_bind, Option.bind_some,
        Function.update_of_ne (Ne.symm hji), release_eq (hagree.stands i)]

theorem assign (hn : 0 < n) (hagree : Agree n st vals) {from_ : Assigned}
    (hp : FreeFor st.heap (st.vars i) a.first) (hallowed : st.AssignAllowed n i from_) :
    To n (st.assign n a i from_) (vals.assign i from_) := by
  have hi := hagree.stands i
  cases from_ with
  | copy j =>
    simp only [Strings.assign, Lists.assign]
    by_cases hji : j = i
    · subst hji
      rw [if_pos rfl, Function.update_eq_self]
      exact ⟨st, rfl, hagree⟩
    · rw [if_neg hji]
      have hmem : HasMemory n (st.vars j).alloc (vals j).length := by
        rw [← (hagree.stands j).size]
        exact hallowed.resolve_left hji
      -- the other string is read after this one's vector is gone
      have hother : Repr n (freed st.heap (st.vars i)) (st.vars j) (vals j) := by
        have hframe : (owner n).Frame st.heap (st.vars i) (freed st.heap (st.vars i))
            { st.vars i with size := 0, usingSso := true } := frame_release rfl
        exact hframe.stands_beside (hagree.stands j) fun x hx hxi =>
          hji (hagree.apart j i x hx hxi)
      obtain ⟨mem, hget, hfront⟩ := getData_eq hother
      have hread : readMem mem 0 (st.vars j).size = some (vals j) := by
        rw [hother.size]
        exact readMem_all hfront
      refine hagree.put ?_
      simp only [assignCopy, release_eq hi, hget, hread, Option.bind_eq_bind, Option.bind_some]
      exact refill_becomes hi hp hmem
  | move j =>
    simp only [Strings.assign, Lists.assign]
    by_cases hji : j = i
    · rw [if_pos hji, if_pos hji]
      exact ⟨st, rfl, hagree⟩
    · rw [if_neg hji, if_neg hji]
      obtain ⟨t, o, htake, -, hpool⟩ :=
        hagree.moveTo hn hji { st.vars i with size := 0, usingSso := true } hi.room
      refine ⟨_, ?_, hpool⟩
      simp only [assignMove, release_eq hi, htake, Option.bind_eq_bind, Option.bind_some]
  | cStr s =>
    cases s with
    | none => exact hagree.put (clear_becomes hn hi)
    | some s =>
      refine hagree.put ?_
      simp only [assignCStr, release_eq hi, Option.bind_eq_bind, Option.bind_some]
      exact refill_becomes hi hp hallowed
  | init s =>
    refine hagree.put ?_
    simp only [assignInit, release_eq hi, Option.bind_eq_bind, Option.bind_some]
    exact refill_becomes hi hp hallowed
  | stdString s =>
    refine hagree.put ?_
    simp only [assignStdString, release_eq hi, Option.bind_eq_bind, Option.bind_some]
    exact refill_becomes hi hp hallowed

/-! ### Append and replacement -/

/-- Characters of a variable, as the source argument they become. -/
theorem sourceOf_eq (hagree : Agree n st vals) (pos len : Nat) (hle : pos + len ≤ (vals j).length) :
    ∃ src, st.sourceOf n i j pos len = some src ∧ src.Within (vals i) ∧ src.length = len ∧
      src.text (vals i) = ((vals j).drop pos).take len ∧
      ((j = i → NoRealloc st.heap (st.vars i) len) → OwnFits st.heap (st.vars i) src) ∧
      ∀ q, (j = i → pos + len ≤ q) → OwnApart q src := by
  by_cases hji : j = i
  · subst hji
    refine ⟨.own pos len, ?_, hle, rfl, rfl, fun h => h rfl, fun q h => h rfl⟩
    simp only [Strings.sourceOf, if_true]
  · obtain ⟨mem, hget, hfront⟩ := getData_eq (hagree.stands j)
    refine ⟨.chars (((vals j).drop pos).take len), ?_, trivial, ?_, rfl, fun _ => trivial,
      fun _ _ => trivial⟩
    · simp only [Strings.sourceOf, if_neg hji, hget, readMem_eq hfront hle, Option.bind_eq_bind,
        Option.bind_some]
    · simp only [Source.length, List.length_take, List.length_drop]
      omega

theorem free_of_inline {s : BasicString} {h : VecHeap} (hp : FreeFor h s p) :
    s.usingSso = true → h p = none := fun hs => hp.resolve_right (not_owns_of_inline hs p)

/-- An append of characters of a variable. -/
theorem appendStr (hn : 0 < n) (hagree : Agree n st vals)
    (hp : FreeFor st.heap (st.vars i) p) (j pos : Nat) {len : Nat} (hle : pos + len ≤ (vals j).length)
    (hallowed : st.StrAllowed n i j len) :
    To n (do
        let src ← st.sourceOf n i j pos len
        st.put i ((st.vars i).appendCStr n st.heap p src))
      (Function.update vals i (vals i ++ ((vals j).drop pos).take len)) := by
  obtain ⟨src, hsrc, hwithin, hlen, htext, hown, -⟩ := hagree.sourceOf_eq (i := i) pos len hle
  obtain ⟨hcan, hroom⟩ := hallowed
  rw [← hlen] at hcan
  rw [hsrc, ← htext]
  exact hagree.put (appendCStr_becomes hn (hagree.stands i) (free_of_inline hp) hwithin hcan
    (hown hroom))

/-- An append of characters from outside. -/
theorem appendChars (hn : 0 < n) (hagree : Agree n st vals)
    (hp : FreeFor st.heap (st.vars i) p) {t : Bytes}
    (hcan : CanAppend n st.heap (st.vars i) t.length) :
    To n (st.put i ((st.vars i).appendCStr n st.heap p (.chars t)))
      (Function.update vals i (vals i ++ t)) := by
  have hwithin : Source.Within (vals i) (.chars t) := trivial
  exact hagree.put (appendCStr_becomes hn (hagree.stands i) (free_of_inline hp) hwithin hcan trivial)

theorem append (hn : 0 < n) (hagree : Agree n st vals) {what : Appended}
    (hp : FreeFor st.heap (st.vars i) a.first) (hallowed : st.AppendAllowed n i what) :
    match Lists.step vals (.append i what) with
    | some vals' => To n (st.append n a i what) vals'
    | none => ∃ e, st.append n a i what = some (.error e) := by
  have hi := hagree.stands i
  cases what with
  | str j =>
    have hsize := (hagree.stands j).size
    have hto := hagree.appendStr hn hp j 0 (by rw [hsize]; omega) hallowed
    rw [hsize, List.drop_zero, List.take_length] at hto
    simp only [Lists.step, Lists.appendText, Option.map_some, Strings.append, hsize]
    exact hto
  | substr j pos count =>
    have hsize := (hagree.stands j).size
    by_cases hpos : (vals j).length < pos
    · simp only [Lists.step, Lists.appendText, if_pos hpos, Option.map_none]
      refine ⟨"Append position out of range", ?_⟩
      simp only [Strings.append, hsize, if_pos hpos]
    · have hle := partLength_le (vals j).length pos count
      have hto := hagree.appendStr hn hp j pos (by rw [hsize]; omega) hallowed
      rw [hsize, take_partLength] at hto
      simp only [Lists.step, Lists.appendText, if_neg hpos, Option.map_some, Strings.append, hsize]
      exact hto
  | cStr s =>
    cases s with
    | none =>
      refine ⟨st, rfl, ?_⟩
      simp only [textOf]
      rw [Option.map_none, Option.getD_none, List.append_nil, Function.update_eq_self]
      exact hagree
    | some s => exact hagree.appendChars hn hp hallowed
  | chars s => exact hagree.appendChars hn hp hallowed
  | count count c =>
    refine hagree.put (pushChars_becomes hn hi (free_of_inline hp) ?_)
    rw [List.length_replicate]
    exact hallowed
  | init s => exact hagree.put (pushChars_becomes hn hi (free_of_inline hp) hallowed)

theorem replace (hn : 0 < n) (hagree : Agree n st vals) {pos count : Nat}
    (hfresh : Fresh st a (.replace i pos count j))
    (hallowed : CanReplace n (st.vars i) pos count (st.vars j).size
      (j = i → (st.vars i).size ≤ pos)) :
    match Lists.step vals (.replace i pos count j) with
    | some vals' => To n (st.step n a (.replace i pos count j)) vals'
    | none => ∃ e, st.step n a (.replace i pos count j) = some (.error e) := by
  have hi := hagree.stands i
  have hsize := hi.size
  have hsizej := (hagree.stands j).size
  obtain ⟨src, hsrc, hwithin, hlen, htext, -, hapart⟩ :=
    hagree.sourceOf_eq (i := i) (j := j) 0 (vals j).length (by omega)
  rw [List.drop_zero, List.take_length] at htext
  by_cases hpos : (vals i).length < pos
  · simp only [Lists.step, if_pos hpos]
    refine ⟨"Replace position out of range", ?_⟩
    simp only [Strings.step, hsizej, hsrc, BasicString.replace, hsize, if_pos hpos,
      Option.bind_eq_bind, Option.bind_some, Strings.putChecked, Option.map_some, Except.map]
  · simp only [Lists.step, if_neg hpos]
    have hcan : CanReplace n (st.vars i) pos count src.length (OwnApart pos src) := by
      rw [hlen, ← hsizej]
      refine hallowed.imp fun hself => hapart pos fun hji => ?_
      subst hji
      have := hself rfl
      omega
    have hto := hagree.putChecked (replaceAt_becomes hn hi (free_of_inline hfresh.first)
      hfresh.second hwithin (by omega) hcan)
    rw [htext] at hto
    simp only [Strings.step, hsizej, hsrc, BasicString.replace, Option.bind_eq_bind, Option.bind_some]
    rw [if_neg (by omega)]
    exact hto

theorem erase (hn : 0 < n) (hagree : Agree n st vals) (pos count : Nat) :
    match vals.step (.erase i pos count) with
    | some vals' => To n (st.step n a (.erase i pos count)) vals'
    | none => ∃ e, st.step n a (.erase i pos count) = some (.error e) := by
  have hi := hagree.stands i
  have hsize := hi.size
  by_cases hpos : (vals i).length < pos
  · simp only [Lists.step, if_pos hpos, Strings.step, BasicString.erase, hsize, Strings.putChecked,
      Option.map_some, Except.map]
    exact ⟨_, rfl⟩
  · have hle : pos ≤ (st.vars i).size := by omega
    have hto := hagree.putChecked (eraseAt_becomes hn hi hle count)
    simp only [Lists.step, if_neg hpos, Strings.step, BasicString.erase, hsize]
    exact hto

theorem replaceCStr (hn : 0 < n) (hagree : Agree n st vals) {pos count : Nat}
    {s : Option Bytes} (hfresh : Fresh st a (.replaceCStr i pos count s))
    (hallowed : st.Allowed n (.replaceCStr i pos count s)) :
    match Lists.step vals (.replaceCStr i pos count s) with
    | some vals' => To n (st.step n a (.replaceCStr i pos count s)) vals'
    | none => ∃ e, st.step n a (.replaceCStr i pos count s) = some (.error e) := by
  have hi := hagree.stands i
  have hsize := hi.size
  cases s with
  | none => exact @erase n st vals i a hn hagree pos count
  | some t =>
    obtain ⟨hmem, hcan⟩ := hallowed
    by_cases hpos : (vals i).length < pos
    · simp only [Lists.step, if_pos hpos]
      refine ⟨"Replace position out of range", ?_⟩
      have hpos' : (st.vars i).size < pos := by omega
      have hthrow := replaceCStr_throws (s := st.vars i) (p := a.first) (q := a.second) hfresh.temp
        count hpos' hmem
      simp only [Strings.step, hthrow, Strings.putChecked, Option.map_some, Except.map]
    · simp only [Lists.step, if_neg hpos]
      obtain ⟨h', s', heq, hrepr, hframe⟩ := replaceCStr_becomes hn hi (free_of_inline hfresh.first)
        hfresh.second hfresh.temp hfresh.apart.1 hfresh.apart.2 (by omega) hmem hcan
      refine ⟨⟨h', Function.update st.vars i s'⟩, ?_, hagree.step hrepr hframe⟩
      simp only [Strings.step, heq, Strings.putChecked, Option.map_some, Except.map]

/-- Strings of one mode change places. -/
theorem swap (hagree : Agree n st vals) (hmode : (st.vars i).usingSso = (st.vars j).usingSso) :
    To n (st.step n ⟨0, 0, 0⟩ (.swap i j)) (Function.update (Function.update vals i (vals j)) j (vals i)) := by
  have hi := hagree.stands i
  have hj := hagree.stands j
  refine ⟨⟨st.heap, Function.update (Function.update st.vars i (st.vars j)) j (st.vars i)⟩, ?_, ?_⟩
  · simp only [Strings.step, swap_eq hmode]
  · by_cases hji : j = i
    · subst hji
      simp only [Function.update_eq_self]
      exact hagree
    · exact hagree.exchange hj hi (fun _ hx => .inr hx) (fun _ hx => .inl hx)
        fun x hx hx' => hji (hagree.apart j i x hx hx')

/-- **A call that meets its condition does what it does on plain lists.** -/
theorem call (hn : 0 < n) (hagree : Agree n st vals) {op : Op} (hfresh : Fresh st a op)
    (hallowed : st.Allowed n op) :
    match vals.step op with
    | some vals' => To n (st.step n a op) vals'
    | none => ∃ e, st.step n a op = some (.error e) := by
  cases op with
  | construct i alloc init => exact hagree.construct hn hfresh hallowed
  | assign i from_ => exact hagree.assign hn hfresh.first hallowed
  | append i what => exact hagree.append hn hfresh.first hallowed
  | pushBack i c =>
    obtain ⟨h', s', heq, hrepr, hframe, -, -⟩ :=
      pushBack_becomes hn (hagree.stands i) (free_of_inline hfresh.first) hallowed c
    exact hagree.put ⟨h', s', heq, hrepr, hframe⟩
  | popBack i => exact hagree.put (popBack_becomes hn (hagree.stands i))
  | resize i count =>
    exact hagree.put (resize_becomes hn (hagree.stands i) (free_of_inline hfresh.first) hallowed)
  | reserve i newCapacity =>
    have hto := hagree.put (reserve_becomes (hagree.stands i) (free_of_inline hfresh.first) hallowed)
    rwa [Function.update_eq_self] at hto
  | shrinkToFit i =>
    have hto := hagree.put (shrinkToFit_becomes (hagree.stands i))
    rwa [Function.update_eq_self] at hto
  | clear i => exact hagree.put (clear_becomes hn (hagree.stands i))
  | replace i pos count j => exact hagree.replace hn hfresh hallowed
  | replaceCStr i pos count s => exact hagree.replaceCStr hn hfresh hallowed
  | erase i pos count => exact hagree.erase hn pos count
  | swap i j => exact hagree.swap hallowed

end Agree

/-! ### What a program sees -/

/-- The code's answers about its strings are those about the plain lists. -/
structure Shows (n : Nat) (st : Strings) (vals : Lists) : Prop where
  size : ∀ i, (st.vars i).size = (vals i).length
  str : ∀ i, (st.vars i).str n st.heap = some (vals i)
  index : ∀ i pos, pos < (vals i).length → (st.vars i).at? n st.heap pos = (vals i)[pos]?
  equals : ∀ i j, (st.vars i).equals n st.heap (st.vars j) = some (decide (vals i = vals j))
  equalsCStr : ∀ i s, (st.vars i).equalsCStr n st.heap s = some (decide (vals i = textOf s))
  compare : ∀ i j, (st.vars i).compare n st.heap (st.vars j) = some (lexCompare (vals i) (vals j))
  compareCStr : ∀ i s,
    (st.vars i).compareCStr n st.heap s = some (lexCompare (vals i) (textOf s))
  find : ∀ i j pos, FindSafe (vals i).length (vals j).length pos →
    (st.vars i).find n st.heap (st.vars j) pos = some (firstAt (vals j) (vals i) pos)
  findCStr : ∀ i s pos, FindSafe (vals i).length (textOf s).length pos →
    (st.vars i).findCStr n st.heap s pos = some (firstAt (textOf s) (vals i) pos)
  findChar : ∀ i c pos, (st.vars i).findChar n st.heap c pos = some (firstAt [c] (vals i) pos)

theorem Agree.shows {n : Nat} {st : Strings} {vals : Lists} (hagree : Agree n st vals) :
    Shows n st vals where
  size i := (hagree.stands i).size
  str i := str_eq (hagree.stands i)
  index i pos hpos := by
    obtain ⟨mem, hmem, rest, hrest⟩ := getData_eq (hagree.stands i)
    simp only [at?, hmem, Option.bind_eq_bind, Option.bind_some, ← hrest]
    exact List.getElem?_append_left hpos
  equals i j := by
    obtain ⟨mem, hmem, hfront⟩ := getData_eq (hagree.stands j)
    rw [BasicString.equals, hmem, (hagree.stands j).size]
    exact equalsTo_eq (hagree.stands i) hfront
  equalsCStr i s := by
    cases s with
    | none =>
      rw [BasicString.equalsCStr, (hagree.stands i).size]
      congr 1
      rw [Bool.eq_iff_iff, beq_iff_eq, decide_eq_true_iff]
      exact List.length_eq_zero_iff
    | some s => exact equalsTo_eq (hagree.stands i) List.prefix_rfl
  compare i j := by
    obtain ⟨mem, hmem, hfront⟩ := getData_eq (hagree.stands j)
    rw [BasicString.compare, hmem, (hagree.stands j).size]
    exact compareTo_eq (hagree.stands i) hfront
  compareCStr i s := by
    cases s with
    | none =>
      rw [BasicString.compareCStr, (hagree.stands i).size, lexCompare_min]
      simp [textOf, lexCompare, List.compareLex]
      rfl
    | some s => exact compareTo_eq (hagree.stands i) List.prefix_rfl
  find i j pos hsafe := by
    obtain ⟨mem, hmem, hfront⟩ := getData_eq (hagree.stands j)
    rw [BasicString.find, hmem, (hagree.stands j).size]
    exact findText_eq (hagree.stands i) hfront hsafe
  findCStr i s pos hsafe := by
    cases s with
    | none =>
      rw [BasicString.findCStr, (hagree.stands i).size]
      exact congrArg some (firstAt_nil (vals i) pos).symm
    | some s => exact findText_eq (hagree.stands i) List.prefix_rfl hsafe
  findChar i c pos := findChar_eq (hagree.stands i) c pos

/-- Every call of the run gets fresh addresses and meets its condition in the state it
finds. -/
def GoodRun (n : Nat) : List (Addrs × Op) → Strings → Prop
  | [], _ => True
  | (a, op) :: calls, st =>
    Fresh st a op ∧ st.Allowed n op ∧ ∀ st', st.next n a op = some st' → GoodRun n calls st'

/-- One call of a run, thrown or not. -/
theorem Agree.next {n : Nat} {st : Strings} {vals : Lists} {a : Addrs} {op : Op} (hn : 0 < n)
    (hagree : Agree n st vals) (hfresh : Fresh st a op) (hallowed : st.Allowed n op) :
    ∃ st', st.next n a op = some st' ∧ Agree n st' ((vals.step op).getD vals) ∧
      ((∃ e, st.step n a op = some (.error e)) ↔ vals.step op = none) := by
  have hcall := hagree.call hn hfresh hallowed
  cases hplain : vals.step op with
  | none =>
    rw [hplain] at hcall
    obtain ⟨e, he⟩ := hcall
    exact ⟨st, by rw [Strings.next, he]; rfl, hagree, iff_of_true ⟨e, he⟩ rfl⟩
  | some vals' =>
    rw [hplain] at hcall
    obtain ⟨st', hstep, hagree'⟩ := hcall
    refine ⟨st', by rw [Strings.next, hstep]; rfl, hagree', iff_of_false ?_ (by simp)⟩
    rintro ⟨e, he⟩
    rw [hstep] at he
    exact absurd he (by simp)

variable {calls : List (Addrs × Op)}

/-- A run of calls that meet their conditions goes through and keeps the agreement. -/
theorem Agree.run {n : Nat} (hn : 0 < n) {st : Strings} {vals : Lists}
    (hagree : Agree n st vals) (hgood : GoodRun n calls st) :
    ∃ st', st.run n calls = some st' ∧ Agree n st' (vals.run calls) := by
  induction calls generalizing st vals with
  | nil => exact ⟨st, rfl, hagree⟩
  | cons call calls ih =>
    obtain ⟨a, op⟩ := call
    obtain ⟨hfresh, hallowed, hrest⟩ := hgood
    obtain ⟨st₁, hnext, hagree₁, -⟩ := hagree.next hn hfresh hallowed
    obtain ⟨st', hrun, hagree'⟩ := ih hagree₁ (hrest st₁ hnext)
    refine ⟨st', ?_, hagree'⟩
    rw [Strings.run, hnext]
    exact hrun

/-- What is in front of a run that is good is a good run. -/
theorem GoodRun.append {n : Nat} {later : List (Addrs × Op)}
    {st : Strings} (hgood : GoodRun n (calls ++ later) st) :
    GoodRun n calls st ∧ ∀ st', st.run n calls = some st' → GoodRun n later st' := by
  induction calls generalizing st with
  | nil =>
    refine ⟨trivial, ?_⟩
    intro st' hrun
    obtain rfl : st = st' := Option.some.inj hrun
    exact hgood
  | cons call calls ih =>
    obtain ⟨a, op⟩ := call
    obtain ⟨hfresh, hallowed, hrest⟩ := hgood
    refine ⟨⟨hfresh, hallowed, fun st' hst' => (ih (hrest st' hst')).1⟩, ?_⟩
    intro st' hrun
    obtain ⟨st₁, hnext, hrun⟩ := Option.bind_eq_some_iff.mp hrun
    exact (ih (hrest st₁ hnext)).2 st' hrun

/-- **In a run whose calls meet their conditions the strings show the plain lists in every
state, and the calls throw where the plain ones do.** -/
theorem strings_show {n : Nat} (hn : 0 < n) {calls done later : List (Addrs × Op)}
    (hgood : GoodRun n calls (Strings.start n)) (hsplit : calls = done ++ later) :
    ∃ st, (Strings.start n).run n done = some st ∧ Shows n st (Lists.run done fun _ => []) ∧
      ∀ a op rest, later = (a, op) :: rest →
        ((∃ e, st.step n a op = some (.error e)) ↔
          (Lists.run done fun _ => []).step op = none) := by
  subst hsplit
  obtain ⟨hdone, hlater⟩ := hgood.append
  obtain ⟨st, hrun, hagree⟩ := (Agree.start n).run hn hdone
  refine ⟨st, hrun, hagree.shows, ?_⟩
  rintro a op rest rfl
  obtain ⟨hfresh, hallowed, -⟩ := hlater st hrun
  obtain ⟨-, -, -, hthrows⟩ := hagree.next hn hfresh hallowed
  exact hthrows

/-- A good run goes on from a known state. -/
theorem GoodRun.cons {n : Nat} {a : Addrs} {op : Op} {st st' : Strings}
    (hfresh : Fresh st a op) (hallowed : st.Allowed n op) (hnext : st.next n a op = some st')
    (hrest : GoodRun n calls st') : GoodRun n ((a, op) :: calls) st := by
  refine ⟨hfresh, hallowed, ?_⟩
  intro st'' hst''
  obtain rfl : st' = st'' := Option.some.inj (hnext.symm.trans hst'')
  exact hrest

/-- An empty string to the heap and, with characters, back into its buffer. -/
theorem strings_show_both_ways :
    ∃ st, (Strings.start 32).run 32 [(⟨1, 2, 3⟩, .reserve 0 64), (⟨4, 5, 6⟩, .append 0 (.chars [104, 105])),
        (⟨7, 8, 9⟩, .shrinkToFit 0)] = some st ∧
      (st.vars 0).usingSso = true ∧ (st.vars 0).str 32 st.heap = some [104, 105] := by
  have hgood : GoodRun 32 [(⟨1, 2, 3⟩, .reserve 0 64), (⟨4, 5, 6⟩, .append 0 (.chars [104, 105])),
      (⟨7, 8, 9⟩, .shrinkToFit 0)] (Strings.start 32) := by
    refine GoodRun.cons ⟨.inl rfl, .inl rfl, rfl, by decide, by decide⟩ (fun _ => .inr rfl) rfl ?_
    refine GoodRun.cons ⟨.inl rfl, .inl rfl, rfl, by decide, by decide⟩
      (.inr (.inr (.inr ⟨rfl, _, rfl, rfl, by decide⟩))) rfl ?_
    exact GoodRun.cons ⟨.inl rfl, .inl rfl, rfl, by decide, by decide⟩ trivial rfl trivial
  obtain ⟨st, hrun, hshows, -⟩ := strings_show (by decide) hgood (List.append_nil _).symm
  refine ⟨st, hrun, ?_, hshows.str 0⟩
  have hsso : ((Strings.start 32).run 32 [(⟨1, 2, 3⟩, .reserve 0 64),
      (⟨4, 5, 6⟩, .append 0 (.chars [104, 105])), (⟨7, 8, 9⟩, .shrinkToFit 0)]).map
        (fun st => (st.vars 0).usingSso) = some true := rfl
  rw [hrun] at hsso
  exact Option.some.inj hsso

/-- A run in which `operator new` keeps its promise. -/
def FreshRun (n : Nat) : List (Addrs × Op) → Strings → Prop
  | [], _ => True
  | (a, op) :: calls, st =>
    Fresh st a op ∧ ∀ st', st.next n a op = some st' → FreshRun n calls st'

/-- Twenty characters in the buffer, and twenty more that do not fit in it. -/
def outgrow : List (Addrs × Op) :=
  [(⟨4096, 1, 2⟩, .construct 0 (some 0) (.stdString (List.replicate 20 97))),
   (⟨8192, 1, 2⟩, .append 0 (.chars (List.replicate 20 98)))]

/-- The first eight characters are the address of the vector then. -/
theorem first_characters_lost : ¬ ∀ n calls, 0 < n → FreshRun n calls (Strings.start n) →
    ∃ st, (Strings.start n).run n calls = some st ∧ Shows n st (Lists.run calls fun _ => []) := by
  intro hclaim
  have hfresh : FreshRun 32 outgrow (Strings.start 32) := by
    refine ⟨⟨.inl rfl, .inl rfl, rfl, by decide, fun _ => rfl⟩, ?_⟩
    intro st hst
    obtain rfl := Option.some.inj hst
    exact ⟨⟨.inl rfl, .inl rfl, rfl, by decide, by decide⟩, fun _ _ => trivial⟩
  obtain ⟨st, hrun, hshows⟩ := hclaim 32 outgrow (by decide) hfresh
  have hstr : ((Strings.start 32).run 32 outgrow).bind (fun st => (st.vars 0).str 32 st.heap) =
      some ([0, 32, 0, 0, 0, 0, 0, 0] ++ List.replicate 12 97 ++ List.replicate 20 98) := rfl
  rw [hrun, Option.bind_some, hshows.str 0] at hstr
  exact absurd (Option.some.inj hstr) (by decide)

end Priv

end IowarpCore
