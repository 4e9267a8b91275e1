/-
The buckets against a finite map.

`AMap` is the finite map.  The buckets stand for one when together they hold its entries, in
some order, and each entry is in the bucket of its key.  A call looks at one bucket.  By
`Refines.locate` that bucket knows of the key what the finite map knows, and by `Refines.set`
a change of it is a change of the finite map, whatever the other buckets hold.
-/
import IowarpCore.Shm.UnorderedMapLl
import IowarpCore.Lib.AMap
import IowarpCore.Lib.Extents

namespace IowarpCore

namespace Priv

namespace UnorderedMapLl

variable {K T : Type}

section Entries

variable {m : UnorderedMapLl K T} {key : K} {l : List (K × T)}

/-- All entries, in the order in which they are visited. -/
def entries (m : UnorderedMapLl K T) : List (K × T) := m.buckets.flatten

/-- The entries of the other buckets. -/
def others (m : UnorderedMapLl K T) (key : K) : List (K × T) :=
  (m.buckets.eraseIdx (m.getBucketIndex key)).flatten

theorem buckets_getElem? (m : UnorderedMapLl K T) (key : K) :
    m.buckets[m.getBucketIndex key]? = some (m.bucket key) :=
  List.getElem?_eq_getElem (m.getBucketIndex_lt key)

theorem entries_perm (m : UnorderedMapLl K T) (key : K) :
    m.entries.Perm (m.bucket key ++ m.others key) :=
  flatten_perm_cons_eraseIdx (m.buckets_getElem? key)

theorem entries_setBucket (m : UnorderedMapLl K T) (key : K) (l : List (K × T)) :
    (m.setBucket key l).entries.Perm (l ++ m.others key) :=
  flatten_set_perm (m.buckets_getElem? key) l

@[simp] theorem getBucketIndex_setBucket (k : K) :
    (m.setBucket key l).getBucketIndex k = m.getBucketIndex k := by
  simp only [getBucketIndex, setBucket, List.length_set]

@[simp] theorem getBucketIndex_forEachMut (fn : K → T → T) (k : K) :
    (m.forEachMut fn).getBucketIndex k = m.getBucketIndex k := by
  simp only [getBucketIndex, forEachMut, List.length_map]

/-- Every entry is in the bucket of its key. -/
def Placed (m : UnorderedMapLl K T) : Prop :=
  ∀ (i : Nat) (b : List (K × T)), m.buckets[i]? = some b → ∀ e ∈ b, m.getBucketIndex e.1 = i

theorem Placed.mem_bucket (h : m.Placed) {v : T} :
    (key, v) ∈ m.entries ↔ (key, v) ∈ m.bucket key := by
  constructor
  · intro hmem
    obtain ⟨b, hb, he⟩ := List.mem_flatten.mp hmem
    obtain ⟨i, hi⟩ := List.mem_iff_getElem?.mp hb
    have hindex : m.getBucketIndex key = i := h i b hi (key, v) he
    rw [← hindex, buckets_getElem?, Option.some.injEq] at hi
    rwa [hi]
  · intro hmem
    exact (m.entries_perm key).mem_iff.mpr (List.mem_append_left _ hmem)

theorem Placed.set (h : m.Placed)
    (hl : ∀ e ∈ l, m.getBucketIndex e.1 = m.getBucketIndex key) : (m.setBucket key l).Placed := by
  intro i b hb e he
  rw [getBucketIndex_setBucket]
  rw [setBucket, List.getElem?_set] at hb
  split at hb
  next hi =>
    rw [if_pos (m.getBucketIndex_lt key), Option.some.injEq] at hb
    rw [← hi]
    exact hl e (hb ▸ he)
  next => exact h i b hb e he

end Entries

section Bucket

variable {pre post : List (K × T)} {key : K} {v : T}

theorem second_split : second (pre ++ (key, v) :: post) pre.length = some v := by
  simp [second]

theorem assignSecond_split (f : T → T) :
    assignSecond (pre ++ (key, v) :: post) pre.length f = pre ++ (key, f v) :: post := by
  unfold assignSecond
  induction pre with
  | nil => rfl
  | cons e pre ih => rw [List.cons_append, List.length_cons, List.modify_succ_cons, ih, List.cons_append]

theorem eraseIdx_split : (pre ++ (key, v) :: post).eraseIdx pre.length = pre ++ post := by
  rw [List.eraseIdx_append_of_length_le (Nat.le_refl _), Nat.sub_self, List.eraseIdx_cons_zero]

/-- A search of a bucket finds the first entry with the key, or there is none. -/
theorem findEntryInBucket_cases [DecidableEq K] (entries : List (K × T)) (key : K) :
    (findEntryInBucket entries key = none ∧ ∀ e ∈ entries, e.1 ≠ key) ∨
      ∃ pre v post, entries = pre ++ (key, v) :: post ∧
        findEntryInBucket entries key = some pre.length := by
  induction entries with
  | nil => exact .inl ⟨rfl, fun e he => absurd he List.not_mem_nil⟩
  | cons e entries ih =>
    have hcons : findEntryInBucket (e :: entries) key =
        if e.1 = key then some 0 else (findEntryInBucket entries key).map (· + 1) := by
      simp [findEntryInBucket, List.findIdx?_cons]
    rw [hcons]
    by_cases he : e.1 = key
    · right
      exact ⟨[], e.2, entries, by rw [← he]; rfl, by rw [if_pos he]; rfl⟩
    · rw [if_neg he]
      rcases ih with ⟨hnone, hall⟩ | ⟨pre, v, post, rfl, hsome⟩
      · left
        refine ⟨by rw [hnone]; rfl, fun e' he' => ?_⟩
        rcases List.mem_cons.mp he' with rfl | hmem
        · exact he
        · exact hall e' hmem
      · right
        exact ⟨e :: pre, v, post, rfl, by rw [hsome]; rfl⟩

end Bucket

/-! ### The refinement -/

variable {m : UnorderedMapLl K T} {a a' : AMap K T} {key : K} {v : T}

/-- The buckets stand for the finite map. -/
structure Refines (m : UnorderedMapLl K T) (a : AMap K T) : Prop where
  perm : m.entries.Perm a.entries
  placed : m.Placed

theorem refines_new {n : Nat} (hash : K → UInt64) (hn : 0 < n) :
    Refines (new n hash hn) (AMap.empty : AMap K T) where
  perm := by
    simp [entries, new, AMap.empty]
  placed i b hb e he := by
    obtain rfl := (List.mem_replicate.mp (List.mem_of_getElem? hb)).2
    exact absurd he List.not_mem_nil

/-- One bucket changes, and the finite map with it. -/
theorem Refines.set (h : Refines m a) {l : List (K × T)}
    (hl : ∀ e ∈ l, m.getBucketIndex e.1 = m.getBucketIndex key)
    (hperm : (l ++ m.others key).Perm a'.entries) : Refines (m.setBucket key l) a' :=
  ⟨(m.entries_setBucket key l).trans hperm, h.placed.set hl⟩

theorem Refines.index_of_mem (h : Refines m a) {e : K × T} (he : e ∈ m.bucket key) :
    m.getBucketIndex e.1 = m.getBucketIndex key :=
  h.placed _ _ (m.buckets_getElem? key) e he

section Lookup

variable [DecidableEq K]

/-- The bucket of a key knows of the key what the finite map knows. -/
theorem Refines.locate (h : Refines m a) (key : K) :
    (findEntryInBucket (m.bucket key) key = none ∧ a.find? key = none) ∨
      ∃ pre v post, m.bucket key = pre ++ (key, v) :: post ∧
        findEntryInBucket (pre ++ (key, v) :: post) key = some pre.length ∧
        a.find? key = some v := by
  rcases findEntryInBucket_cases (m.bucket key) key with ⟨hnone, hall⟩ | ⟨pre, v, post, hb, hsome⟩
  · refine .inl ⟨hnone, AMap.find?_eq_none_iff.mpr fun v hv => ?_⟩
    exact hall (key, v) (h.placed.mem_bucket.mp (h.perm.mem_iff.mpr hv)) rfl
  · refine .inr ⟨pre, v, post, hb, hb ▸ hsome, AMap.find?_eq_some_iff.mpr ?_⟩
    refine h.perm.mem_iff.mp (h.placed.mem_bucket.mpr ?_)
    rw [hb]
    exact List.mem_append_right _ List.mem_cons_self

/-- What is left of the buckets without an entry is the finite map without its key. -/
theorem Refines.rest_perm (h : Refines m a) {pre post : List (K × T)}
    (hb : m.bucket key = pre ++ (key, v) :: post) (hfind : a.find? key = some v) :
    (pre ++ post ++ m.others key).Perm (a.erase key).entries := by
  have hentries : ((key, v) :: (pre ++ post ++ m.others key)).Perm m.entries := by
    refine .trans ?_ (m.entries_perm key).symm
    rw [hb]
    exact (List.perm_middle.symm).append_right (m.others key)
  exact (hentries.trans (h.perm.trans (AMap.entries_perm_of_find hfind))).cons_inv

/-- The value of an entry is changed in its place. -/
theorem Refines.assign (h : Refines m a) {pre post : List (K × T)}
    (hb : m.bucket key = pre ++ (key, v) :: post) (hfind : a.find? key = some v) (v' : T) :
    Refines (m.setBucket key (pre ++ (key, v') :: post)) (a.insertOrAssign key v') := by
  refine h.set (fun e he => ?_) ?_
  · rcases List.mem_append.mp he with hpre | hpost
    · exact h.index_of_mem (hb ▸ List.mem_append_left _ hpre)
    · rcases List.mem_cons.mp hpost with rfl | hmem
      · rfl
      · exact h.index_of_mem (hb ▸ List.mem_append_right _ (List.mem_cons_of_mem _ hmem))
  · refine .trans ?_ (AMap.insertOrAssign_perm a key v').symm
    exact (List.perm_middle.append_right (m.others key)).trans ((h.rest_perm hb hfind).cons _)

/-- An entry goes to the end of the bucket of a key that has none. -/
theorem Refines.append (h : Refines m a) (hfind : a.find? key = none) (v : T) :
    Refines (m.setBucket key (m.bucket key ++ [(key, v)])) (a.insertOrAssign key v) := by
  refine h.set (fun e he => ?_) ?_
  · rcases List.mem_append.mp he with hold | hnew
    · exact h.index_of_mem hold
    · rw [List.mem_singleton.mp hnew]
  · refine .trans ?_ (AMap.insertOrAssign_perm a key v).symm
    rw [AMap.erase_entries_of_find_none hfind]
    have hnew : (m.bucket key ++ [(key, v)]).Perm ((key, v) :: m.bucket key) :=
      List.perm_append_singleton _ _
    exact (hnew.append_right _).trans (((m.entries_perm key).symm.trans h.perm).cons _)

/-- An entry is taken out of its bucket. -/
theorem Refines.remove (h : Refines m a) {pre post : List (K × T)}
    (hb : m.bucket key = pre ++ (key, v) :: post) (hfind : a.find? key = some v) :
    Refines (m.setBucket key (pre ++ post)) (a.erase key) := by
  refine h.set (fun e he => ?_) (h.rest_perm hb hfind)
  rcases List.mem_append.mp he with hpre | hpost
  · exact h.index_of_mem (hb ▸ List.mem_append_left _ hpre)
  · exact h.index_of_mem (hb ▸ List.mem_append_right _ (List.mem_cons_of_mem _ hpost))

end Lookup

theorem refines_clear (m : UnorderedMapLl K T) : Refines m.clear AMap.empty where
  perm := by
    simp [entries, UnorderedMapLl.clear, AMap.empty]
  placed i b hb e he := by
    have hempty : b = [] := by
      rw [UnorderedMapLl.clear, List.getElem?_map, Option.map_eq_some_iff] at hb
      obtain ⟨_, _, hb⟩ := hb
      exact hb.symm
    rw [hempty] at he
    exact absurd he List.not_mem_nil

theorem Refines.forEachMut (h : Refines m a) (fn : K → T → T) :
    Refines (m.forEachMut fn) (a.mapVal fn) where
  perm := by
    have hmap : (m.forEachMut fn).entries = m.entries.map fun e => (e.1, fn e.1 e.2) :=
      (List.map_flatten).symm
    rw [hmap]
    exact h.perm.map _
  placed i b hb e he := by
    rw [UnorderedMapLl.forEachMut, List.getElem?_map, Option.map_eq_some_iff] at hb
    obtain ⟨b', hb', rfl⟩ := hb
    obtain ⟨e', he', rfl⟩ := List.mem_map.mp he
    rw [getBucketIndex_forEachMut]
    exact h.placed i b' hb' e' he'

/-! ### Calls and programs -/

section Programs

variable [DecidableEq K]

/-- The same call on a finite map. -/
def Op.onMap [Inhabited T] (a : AMap K T) : Op K T → Out T × AMap K T
  | .insert key value | .emplace (key, value) =>
    match a.find? key with
    | some old => (.inserted false (some old), a)
    | none => (.inserted true (some value), a.insertOrAssign key value)
  | .insertOrAssign key value =>
    (.inserted (a.find? key).isNone (some value), a.insertOrAssign key value)
  | .subscript key use =>
    (.ref (some ((a.find? key).getD default)),
      a.insertOrAssign key (use ((a.find? key).getD default)))
  | .erase key => (.erased (if a.contains key then 1 else 0), a.erase key)
  | .clear => (.done, AMap.empty)
  | .forEachMut fn => (.done, a.mapVal fn)

/-- The same program on a finite map. -/
def runOnMap [Inhabited T] (a : AMap K T) : List (Op K T) → List (Out T) × AMap K T
  | [] => ([], a)
  | op :: ops =>
    let (out, a) := op.onMap a
    let (outs, a) := runOnMap a ops
    (out :: outs, a)

theorem Refines.insert (h : Refines m a) (key : K) (value : T) :
    ((∃ old, a.find? key = some old ∧ m.insert key value = ((false, some old), m)) ∨
      (a.find? key = none ∧ (m.insert key value).1 = (true, some value) ∧
        Refines (m.insert key value).2 (a.insertOrAssign key value))) := by
  unfold UnorderedMapLl.insert
  rcases h.locate key with ⟨hnone, hfind⟩ | ⟨pre, v, post, hb, hsome, hfind⟩
  · simp only [hnone]
    exact .inr ⟨hfind, trivial, h.append hfind value⟩
  · simp only [hb, hsome, second_split]
    exact .inl ⟨v, hfind, rfl⟩

variable [Inhabited T]

/-- Every call returns what it does on the finite map, and the refinement is kept. -/
theorem Refines.step (h : Refines m a) (op : Op K T) :
    (m.step op).1 = (op.onMap a).1 ∧ Refines (m.step op).2 (op.onMap a).2 := by
  have hinsert : ∀ key value, (m.step (.insert key value)).1 = ((Op.insert key value).onMap a).1 ∧
      Refines (m.step (.insert key value)).2 ((Op.insert key value).onMap a).2 := by
    intro key value
    rcases h.insert key value with ⟨old, hfind, hout⟩ | ⟨hfind, hout, hrefines⟩
    · simp only [UnorderedMapLl.step, Op.onMap, hout, hfind]
      exact ⟨trivial, h⟩
    · simp only [UnorderedMapLl.step, Op.onMap, hout, hfind]
      exact ⟨trivial, hrefines⟩
  cases op with
  | insert key value => exact hinsert key value
  | emplace temp => exact hinsert temp.1 temp.2
  | insertOrAssign key value =>
    simp only [UnorderedMapLl.step, UnorderedMapLl.insertOrAssign, Op.onMap]
    rcases h.locate key with ⟨hnone, hfind⟩ | ⟨pre, v, post, hb, hsome, hfind⟩
    · simp only [hnone, hfind]
      exact ⟨rfl, h.append hfind value⟩
    · simp only [hsome, hfind, hb, assignSecond_split, second_split]
      exact ⟨rfl, h.assign hb hfind value⟩
  | subscript key use =>
    simp only [UnorderedMapLl.step, UnorderedMapLl.subscript, Op.onMap]
    rcases h.locate key with ⟨hnone, hfind⟩ | ⟨pre, v, post, hb, hsome, hfind⟩
    · have hlast : (m.bucket key ++ [(key, (default : T))]).length - 1 = (m.bucket key).length := by
        rw [List.length_append, List.length_singleton, Nat.add_sub_cancel]
      simp only [hnone, hfind, hlast, assignSecond_split, Option.getD_none]
      exact ⟨trivial, h.append hfind (use default)⟩
    · simp only [hsome, hfind, hb, assignSecond_split, second_split, Option.getD_some]
      exact ⟨trivial, h.assign hb hfind (use v)⟩
  | erase key =>
    simp only [UnorderedMapLl.step, UnorderedMapLl.erase, Op.onMap, AMap.contains]
    rcases h.locate key with ⟨hnone, hfind⟩ | ⟨pre, v, post, hb, hsome, hfind⟩
    · simp only [hnone, hfind]
      refine ⟨rfl, ?_, h.placed⟩
      rw [AMap.erase_entries_of_find_none hfind]
      exact h.perm
    · simp only [hsome, hfind, hb, eraseIdx_split]
      exact ⟨rfl, h.remove hb hfind⟩
  | clear => exact ⟨rfl, refines_clear m⟩
  | forEachMut fn => exact ⟨rfl, h.forEachMut fn⟩

theorem Refines.run (h : Refines m a) (ops : List (Op K T)) :
    (m.run ops).1 = (runOnMap a ops).1 ∧ Refines (m.run ops).2 (runOnMap a ops).2 := by
  induction ops generalizing m a with
  | nil => exact ⟨rfl, h⟩
  | cons op ops ih =>
    obtain ⟨hout, hrefines⟩ := h.step op
    obtain ⟨houts, hrest⟩ := ih hrefines
    exact ⟨congrArg₂ List.cons hout houts, hrest⟩

end Programs

/-! ### What a program sees -/

section Queries

variable [DecidableEq K]

theorem Refines.find_eq (h : Refines m a) (key : K) : m.find key = a.find? key := by
  unfold UnorderedMapLl.find
  rcases h.locate key with ⟨hnone, hfind⟩ | ⟨pre, v, post, hb, hsome, hfind⟩
  · simp only [hnone, hfind]
  · simp only [hsome, hfind, hb, second_split]

theorem Refines.contains_eq (h : Refines m a) (key : K) : m.contains key = a.contains key := by
  rw [UnorderedMapLl.contains, AMap.contains, h.find_eq]

theorem Refines.at_eq (h : Refines m a) (key : K) : m.at? key =
    match a.find? key with
    | some v => .ok (some v)
    | none => .error "unordered_map_ll::at: key not found" := by
  unfold UnorderedMapLl.at?
  rcases h.locate key with ⟨hnone, hfind⟩ | ⟨pre, v, post, hb, hsome, hfind⟩
  · simp only [hnone, hfind]
  · simp only [hsome, hfind, hb, second_split]

end Queries

theorem size_eq (m : UnorderedMapLl K T) : m.size = m.entries.length := by
  have hfold : ∀ (bs : List (List (K × T))) n,
      bs.foldl (fun total entries => total + entries.length) n = n + bs.flatten.length := by
    intro bs
    induction bs with
    | nil => intro n; rfl
    | cons b bs ih =>
      intro n
      rw [List.foldl_cons, ih, List.flatten_cons, List.length_append, Nat.add_assoc]
  rw [size, hfold, Nat.zero_add, entries]

theorem forEach_eq {σ : Type} (m : UnorderedMapLl K T) (fn : σ → K → T → σ) (s : σ) :
    m.forEach fn s = m.entries.foldl (fun s e => fn s e.1 e.2) s := List.foldl_flatten.symm

/-- The buckets answer every question as the finite map does. -/
structure Agrees [DecidableEq K] (m : UnorderedMapLl K T) (a : AMap K T) : Prop where
  /-- No key is twice in a bucket or in two buckets. -/
  distinct : (m.buckets.flatten.map Prod.fst).Nodup
  find : ∀ key, m.find key = a.find? key
  contains : ∀ key, m.contains key = a.contains key
  count : ∀ key, m.count key = if a.contains key then 1 else 0
  at? : ∀ key, m.at? key =
    match a.find? key with
    | some v => .ok (some v)
    | none => .error "unordered_map_ll::at: key not found"
  size : m.size = a.entries.length
  empty : m.empty = a.entries.isEmpty
  /-- Each entry is visited once. -/
  forEach : ∃ visited : List (K × T), visited.Perm a.entries ∧
    ∀ (σ : Type) (fn : σ → K → T → σ) (s : σ),
      m.forEach fn s = visited.foldl (fun s e => fn s e.1 e.2) s
  /-- An insertion succeeds exactly when the key is absent. -/
  insert : ∀ key value, (m.insert key value).1.1 = true ↔ a.find? key = none
  /-- One entry is erased exactly when the key is present. -/
  erase : ∀ key, (m.erase key).1 = 1 ↔ a.contains key = true

theorem Refines.agrees [DecidableEq K] (h : Refines m a) : Agrees m a where
  distinct := (h.perm.map Prod.fst).nodup_iff.mpr a.nodup
  find := h.find_eq
  contains := h.contains_eq
  count key := by rw [UnorderedMapLl.count, h.contains_eq]
  at? := h.at_eq
  size := by rw [size_eq, h.perm.length_eq]
  empty := by
    rw [UnorderedMapLl.empty, size_eq, h.perm.length_eq]
    cases a.entries <;> rfl
  forEach := ⟨m.entries, h.perm, fun _ fn s => m.forEach_eq fn s⟩
  insert key value := by
    rcases h.insert key value with ⟨old, hfind, hout⟩ | ⟨hfind, hout, -⟩
    · simp [hout, hfind]
    · simp [hout, hfind]
  erase key := by
    unfold UnorderedMapLl.erase AMap.contains
    rcases h.locate key with ⟨hnone, hfind⟩ | ⟨pre, v, post, hb, hsome, hfind⟩
    · simp [hnone, hfind]
    · simp [hb, hsome, hfind]

/-- **Every program returns on the buckets what it returns on a finite map, and leaves buckets
that agree with it.** -/
theorem run_refines [DecidableEq K] [Inhabited T] (hash : K → UInt64) {maxConcurrency : Nat}
    (hpos : 0 < maxConcurrency) (ops : List (Op K T)) :
    ((new maxConcurrency hash hpos).run ops).1 = (runOnMap AMap.empty ops).1 ∧
      Agrees ((new maxConcurrency hash hpos).run ops).2 (runOnMap AMap.empty ops).2 := by
  obtain ⟨houts, hrefines⟩ := (refines_new hash hpos).run ops
  exact ⟨houts, hrefines.agrees⟩

/-- Three keys of one hash in one bucket. -/
theorem run_refines_one_bucket :
    ((new 1 (fun _ => 7) Nat.one_pos : UnorderedMapLl Nat Nat).run
      [.insert 1 10, .insert 2 20, .subscript 3 (· + 30), .insert 1 11, .erase 2]).1 =
      [.inserted true (some 10), .inserted true (some 20), .ref (some 0),
        .inserted false (some 10), .erased 1] ∧
    ((new 1 (fun _ => 7) Nat.one_pos : UnorderedMapLl Nat Nat).run
      [.insert 1 10, .insert 2 20, .subscript 3 (· + 30), .insert 1 11, .erase 2]).2.size = 2 := by
  obtain ⟨houts, hagrees⟩ := run_refines (K := Nat) (T := Nat) (fun _ => 7) Nat.one_pos
    [.insert 1 10, .insert 2 20, .subscript 3 (· + 30), .insert 1 11, .erase 2]
  refine ⟨houts.trans (by decide), hagrees.size.trans (by decide)⟩

end UnorderedMapLl

end Priv

end IowarpCore
